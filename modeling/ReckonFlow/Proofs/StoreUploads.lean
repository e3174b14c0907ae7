import ReckonFlow.Proofs.StoragePaths
import ReckonFlow.Spec.StoreUploads

/-! A committed receipt has its file, whatever fails on the way: only the request that drew a path writes
there, the file before the commit, and only the holder of an expense commits a row for it. -/

namespace ReckonFlow.StoreUpload

open Lts PyText PyPath Storage

variable {u : Setup} {s s' : State} {i j : ℕ} {a b : Upload} {path : List PyStr} {row : Receipt}

/-! ## Paths -/

/-- Request `i` stores its file at `path`. -/
def Setup.StoresAt (u : Setup) (i : ℕ) (path : List PyStr) : Prop :=
  ∃ a, u.uploads[i]? = some a ∧ u.path a = .ok path

/-- The first 32 characters of a file's name. -/
def namePrefix (path : List PyStr) : PyStr := (path.getLast?.getD []).take 32

theorem prefix_storedName (root : List PyStr) (uuid : UuidHex) (filename : PyStr) :
    namePrefix (root ++ [storedName uuid filename]) = uuid.digits.map codePoint := by
  have hlength : (uuid.digits.map codePoint).length = 32 := by rw [List.length_map, uuid.length]
  rw [namePrefix, List.getLast?_concat, Option.getD_some, storedName, List.take_left' hlength]

theorem Setup.path_eq (u : Setup) (ha : a ∈ u.uploads) (h : u.path a = .ok path) :
    ∃ root, resolve u.fs u.storage = some root ∧ path = root ++ [storedName a.uuid a.filename] := by
  have hresolved : ∃ root, resolve u.fs u.storage = some root := by
    cases hroot : resolve u.fs u.storage with
    | some root => exact ⟨root, rfl⟩
    | none =>
      unfold Setup.path uploadPath resolveStoragePath resolved at h
      rw [hroot] at h
      cases h
  obtain ⟨root, hroot⟩ := hresolved
  have hfresh := (u.unused a ha root (storedName a.uuid a.filename) (List.prefix_append _ _)).1
  exact ⟨root, hroot, (Except.ok.inj ((uploadPath_eq hroot hfresh).symm.trans h)).symm⟩

/-- The name tells the request. -/
theorem Setup.StoresAt.prefix_inj {path' : List PyStr} (hi : u.StoresAt i path) (hj : u.StoresAt j path')
    (h : namePrefix path = namePrefix path') : i = j := by
  obtain ⟨a, ha, hpath⟩ := hi
  obtain ⟨b, hb, hpath'⟩ := hj
  obtain ⟨root, -, rfl⟩ := u.path_eq (List.mem_of_getElem? ha) hpath
  obtain ⟨root', -, rfl⟩ := u.path_eq (List.mem_of_getElem? hb) hpath'
  rw [prefix_storedName, prefix_storedName] at h
  have huuid : a.uuid.digits = b.uuid.digits := codePoint_injective.list_map h
  have hlt : i < (u.uploads.map (·.uuid.digits)).length := by
    rw [List.length_map]
    exact (List.getElem?_eq_some_iff.1 ha).1
  refine (List.getElem?_inj hlt u.distinct).1 ?_
  rw [List.getElem?_map, List.getElem?_map, ha, hb, Option.map_some, Option.map_some, huuid]

theorem Setup.StoresAt.unique (hi : u.StoresAt i path) (hj : u.StoresAt j path) : i = j :=
  hi.prefix_inj hj rfl

/-- Nothing is there before. -/
theorem Setup.StoresAt.unused (h : u.StoresAt i path) : u.files path = none := by
  obtain ⟨a, ha, hpath⟩ := h
  have hmem := List.mem_of_getElem? ha
  obtain ⟨root, -, rfl⟩ := u.path_eq hmem hpath
  exact (u.unused a hmem root _ (List.prefix_append _ _)).2

/-! ## The invariant -/

/-- `row` is the one request `i` inserts. -/
def Setup.Inserts (u : Setup) (i : ℕ) (row : Receipt) : Prop :=
  ∃ a, u.uploads[i]? = some a ∧ u.path a = .ok row.storagePath ∧ row = a.receipt row.id row.storagePath

theorem Setup.Inserts.storesAt (h : u.Inserts i row) : u.StoresAt i row.storagePath := by
  obtain ⟨a, ha, hpath, -⟩ := h
  exact ⟨a, ha, hpath⟩

/-- The bytes uploaded by request `i` are in the file of its row. -/
def Stored (u : Setup) (s : State) (i : ℕ) (row : Receipt) : Prop :=
  ∃ a, u.uploads[i]? = some a ∧ s.files row.storagePath = some a.content

/-- Session `i` has the expense of its row for itself, and no committed row has it. -/
def Claims (s : State) (i : ℕ) (row : Receipt) : Prop :=
  ∀ e, row.expenseId = some e → s.expenseLock e = some i ∧ ∀ r ∈ s.receipts, r.expenseId ≠ some e

def SessionInv (u : Setup) (s : State) (i : ℕ) : Phase → Prop
  | .resolved path => u.StoresAt i path
  | .flushed row => u.Inserts i row ∧ Claims s i row
  | .stored row => u.Inserts i row ∧ Claims s i row ∧ Stored u s i row
  | .committed row => u.Inserts i row ∧ row ∈ s.receipts ∧ Stored u s i row
  | _ => True

/-- The request has got to its write. -/
def Wrote : Phase → Prop
  | .stored _ | .committed _ => True
  | .raised stage _ => stage = .write ∨ stage = .outside ∨ stage = .commit
  | _ => False

structure Inv (u : Setup) (s : State) : Prop where
  session : ∀ i, SessionInv u s i (s.phase i)
  /-- every row is that of a request -/
  origin : ∀ r ∈ s.receipts, ∃ i, s.phase i = .committed r
  /-- no two rows share their file or their expense -/
  apart : s.receipts.Pairwise fun r r' =>
    r.storagePath ≠ r'.storagePath ∧ ∀ e, r.expenseId = some e → r'.expenseId ≠ some e
  /-- files come from requests that write them -/
  touched : ∀ path, s.files path ≠ u.files path → ∃ i, u.StoresAt i path ∧ Wrote (s.phase i)

/-- What the steps of other sessions leave to session `j`. -/
structure Frame (u : Setup) (s s' : State) (j : ℕ) : Prop where
  files : ∀ path, u.StoresAt j path → s'.files path = s.files path
  locks : ∀ e, s.expenseLock e = some j → s'.expenseLock e = some j
  kept : ∀ r ∈ s.receipts, r ∈ s'.receipts
  fresh : ∀ r ∈ s'.receipts, r ∈ s.receipts ∨ ∀ e, r.expenseId = some e → s.expenseLock e ≠ some j

theorem Claims.frame (h : Claims s j row) (hf : Frame u s s' j) : Claims s' j row := by
  intro e he
  obtain ⟨hlock, hnone⟩ := h e he
  refine ⟨hf.locks e hlock, fun r hr => ?_⟩
  rcases hf.fresh r hr with hr | hr
  · exact hnone r hr
  · exact fun hre => hr e hre hlock

theorem Stored.frame (h : Stored u s j row) (hrow : u.Inserts j row) (hf : Frame u s s' j) :
    Stored u s' j row := by
  obtain ⟨a, ha, hfile⟩ := h
  exact ⟨a, ha, (hf.files _ hrow.storesAt).trans hfile⟩

theorem SessionInv.frame {p : Phase} (h : SessionInv u s j p) (hf : Frame u s s' j) :
    SessionInv u s' j p := by
  cases p with
  | flushed row => exact ⟨h.1, h.2.frame hf⟩
  | stored row => exact ⟨h.1, h.2.1.frame hf, h.2.2.frame h.1 hf⟩
  | committed row => exact ⟨h.1, hf.kept row h.2.1, h.2.2.frame h.1 hf⟩
  | resolved path => exact h
  | _ => trivial

/-! ## Steps -/

theorem Frame.trans {s₁ : State} (h : Frame u s s₁ j) (h' : Frame u s₁ s' j) : Frame u s s' j where
  files path hpath := (h'.files path hpath).trans (h.files path hpath)
  locks e he := h'.locks e (h.locks e he)
  kept r hr := h'.kept r (h.kept r hr)
  fresh r hr := by
    rcases h'.fresh r hr with hr | hr
    · exact h.fresh r hr
    · exact .inr fun e he hlock => hr e he (h.locks e hlock)

theorem Frame.setPhase {p : Phase} (h : Frame u s s' j) : Frame u s (s'.setPhase i p) j :=
  ⟨h.files, h.locks, h.kept, h.fresh⟩

theorem Frame.of_eq (hfiles : s'.files = s.files) (hlocks : s'.expenseLock = s.expenseLock)
    (hreceipts : s'.receipts = s.receipts) : Frame u s s' j where
  files _ _ := by rw [hfiles]
  locks _ he := by rwa [hlocks]
  kept _ hr := by rwa [hreceipts]
  fresh _ hr := .inl (hreceipts ▸ hr)

theorem Frame.release (hj : j ≠ i) : Frame u s (s.release i) j where
  files _ _ := rfl
  locks _ he := Locks.release_held hj he
  kept _ hr := hr
  fresh _ hr := .inl hr

theorem Frame.takeExpense {e : Id} (hfree : s.expenseLock.Free i e) (hj : j ≠ i) :
    Frame u s (s.takeExpense i e) j where
  files _ _ := rfl
  locks _ he := Locks.take_held hfree hj he
  kept _ hr := hr
  fresh _ hr := .inl hr

theorem Frame.writeFile {content : Option (List UInt8)} (hpath : u.StoresAt i path) (hj : j ≠ i) :
    Frame u s (s.writeFile path content) j where
  files path' hpath' := by
    refine Function.update_of_ne ?_ ..
    rintro rfl
    exact hj (hpath'.unique hpath)
  locks _ he := he
  kept _ hr := hr
  fresh _ hr := .inl hr

theorem Frame.commit (hclaims : Claims s i row) (hj : j ≠ i) :
    Frame u s { s with receipts := s.receipts ++ [row] } j where
  files _ _ := rfl
  locks _ he := he
  kept _ hr := List.mem_append_left _ hr
  fresh r hr := by
    rcases List.mem_append.1 hr with hr | hr
    · exact .inl hr
    · obtain rfl := List.mem_singleton.1 hr
      exact .inr fun e he hlock => hj (Option.some.inj (hlock.symm.trans (hclaims e he).1))

section Move

variable {s₁ : State} {p : Phase}

theorem Inv.session_move (h : Inv u s) (hphase : s₁.phase = s.phase) (hf : ∀ j ≠ i, Frame u s s₁ j)
    (hp : SessionInv u s₁ i p) (j : ℕ) :
    SessionInv u (s₁.setPhase i p) j ((s₁.setPhase i p).phase j) := by
  by_cases hj : j = i
  · subst hj
    rw [setPhase_self]
    exact hp
  · rw [setPhase_of_ne _ _ hj, hphase]
    exact (h.session j).frame (hf j hj).setPhase

theorem Inv.touched_move (h : Inv u s) (hphase : s₁.phase = s.phase) (hwrote : Wrote (s.phase i) → Wrote p)
    (hfiles : ∀ path, s₁.files path = s.files path ∨ u.StoresAt i path ∧ Wrote p) (path : List PyStr)
    (hpath : s₁.files path ≠ u.files path) :
    ∃ j, u.StoresAt j path ∧ Wrote ((s₁.setPhase i p).phase j) := by
  rcases hfiles path with hsame | ⟨hstores, hp⟩
  · obtain ⟨j, hstores, hj⟩ := h.touched path (hsame ▸ hpath)
    refine ⟨j, hstores, ?_⟩
    by_cases hji : j = i
    · subst hji
      rw [setPhase_self]
      exact hwrote hj
    · rwa [setPhase_of_ne _ _ hji, hphase]
  · refine ⟨i, hstores, ?_⟩
    rwa [setPhase_self]

/-- A step of session `i` other than its commit. -/
theorem Inv.move (h : Inv u s) (hphase : s₁.phase = s.phase) (hreceipts : s₁.receipts = s.receipts)
    (hlive : ∀ r, s.phase i ≠ .committed r) (hf : ∀ j ≠ i, Frame u s s₁ j) (hp : SessionInv u s₁ i p)
    (hwrote : Wrote (s.phase i) → Wrote p)
    (hfiles : ∀ path, s₁.files path = s.files path ∨ u.StoresAt i path ∧ Wrote p) :
    Inv u (s₁.setPhase i p) where
  session := h.session_move hphase hf hp
  origin r hr := by
    obtain ⟨j, hj⟩ := h.origin r (hreceipts ▸ hr)
    have hji : j ≠ i := by
      rintro rfl
      exact hlive r hj
    exact ⟨j, by rwa [setPhase_of_ne _ _ hji, hphase]⟩
  apart := hreceipts ▸ h.apart
  touched := h.touched_move hphase hwrote hfiles

end Move

theorem Inv.raise {stage : Stage} {error : Option Error} (h : Inv u s) (hlive : ∀ r, s.phase i ≠ .committed r)
    (hwrote : Wrote (s.phase i) → Wrote (.raised stage error)) : Inv u (s.raise i stage error) :=
  h.move rfl rfl hlive (fun _ hj => .release hj) trivial hwrote fun _ => .inl rfl

theorem not_committed (hwrote : ¬ Wrote (s.phase i)) (r : Receipt) : s.phase i ≠ .committed r := by
  intro hr
  rw [hr] at hwrote
  exact hwrote trivial

/-- Before the write a request can raise anywhere. -/
theorem Inv.refuse {stage : Stage} {error : Option Error} (h : Inv u s) (hwrote : ¬ Wrote (s.phase i)) :
    Inv u (s.raise i stage error) := h.raise (not_committed hwrote) (absurd · hwrote)

theorem Inv.setPhase {p : Phase} (h : Inv u s) (hwrote : ¬ Wrote (s.phase i)) (hp : SessionInv u s i p) :
    Inv u (s.setPhase i p) :=
  h.move rfl rfl (not_committed hwrote) (fun _ _ => .of_eq rfl rfl rfl) hp (absurd · hwrote) fun _ => .inl rfl

theorem Inv.drawId (h : Inv u s) : Inv u s.drawId where
  session j := (h.session j).frame (.of_eq rfl rfl rfl)
  origin := h.origin
  apart := h.apart
  touched := h.touched

theorem Inv.insert (h : Inv u s) (hphase : s.phase i = .resolved path) (hrow : u.Inserts i row)
    (hs : s.insert i row = some s') : Inv u s' := by
  have hwrote : ¬ Wrote (s.phase i) := hphase ▸ id
  unfold State.insert at hs
  split at hs
  · rename_i hnone
    obtain rfl := Option.some.inj hs
    refine h.setPhase hwrote ⟨hrow, fun e he => ?_⟩
    rw [hnone] at he
    cases he
  · rename_i expenseId hexpense
    split_ifs at hs with hfree hadmits
    · obtain rfl := Option.some.inj hs
      refine h.move rfl rfl (not_committed hwrote) (fun j hj => .takeExpense hfree hj) ⟨hrow, fun e he => ?_⟩
        (absurd · hwrote) fun _ => .inl rfl
      obtain rfl := Option.some.inj (hexpense.symm.trans he)
      exact ⟨Locks.take_self, hadmits.2⟩
    · obtain rfl := Option.some.inj hs
      exact h.refuse hwrote

theorem Inv.writeBytes (h : Inv u s) (hphase : s.phase i = .flushed row) (ha : u.uploads[i]? = some a) :
    Inv u ((s.writeFile row.storagePath (some a.content)).setPhase i (.stored row)) := by
  have hi := h.session i
  rw [hphase] at hi
  obtain ⟨hrow, hclaims⟩ := hi
  refine h.move rfl rfl (by simp [hphase]) (fun j hj => .writeFile hrow.storesAt hj)
    ⟨hrow, hclaims, a, ha, Function.update_self ..⟩ (fun _ => trivial) fun path => ?_
  by_cases hpath : path = row.storagePath
  · exact .inr ⟨hpath ▸ hrow.storesAt, trivial⟩
  · exact .inl (Function.update_of_ne hpath ..)

/-- The file may be there in part, without its row. -/
theorem Inv.writeFails (h : Inv u s) (hphase : s.phase i = .flushed row) (content : List UInt8)
    (written : Option ℕ) : Inv u ((s.writeFails row.storagePath content written).raise i .write none) := by
  have hi := h.session i
  rw [hphase] at hi
  have hlive : ∀ r, s.phase i ≠ .committed r := by simp [hphase]
  cases written with
  | none => exact h.raise hlive fun _ => .inl rfl
  | some written =>
    refine h.move rfl rfl hlive (fun j hj => (Frame.writeFile hi.1.storesAt hj).trans (.release hj)) trivial
      (fun _ => .inl rfl) fun path => ?_
    by_cases hpath : path = row.storagePath
    · exact .inr ⟨hpath ▸ hi.1.storesAt, .inl rfl⟩
    · exact .inl (Function.update_of_ne hpath ..)

theorem Inv.commit (h : Inv u s) (hphase : s.phase i = .stored row) : Inv u (s.commit i row) := by
  have hi := h.session i
  rw [hphase] at hi
  obtain ⟨hrow, hclaims, hstored⟩ := hi
  have hf : ∀ j ≠ i, Frame u s ({ s with receipts := s.receipts ++ [row] }.release i) j := fun j hj =>
    (Frame.commit hclaims hj).trans (.release hj)
  refine ⟨h.session_move rfl hf ⟨hrow, List.mem_append_right _ (List.mem_singleton_self row), hstored⟩,
    fun r hr => ?_, ?_, h.touched_move rfl (fun _ => trivial) fun _ => .inl rfl⟩
  · rcases List.mem_append.1 hr with hr | hr
    · obtain ⟨j, hj⟩ := h.origin r hr
      refine ⟨j, (setPhase_of_ne _ _ ?_).trans hj⟩
      rintro rfl
      cases hphase.symm.trans hj
    · obtain rfl := List.mem_singleton.1 hr
      exact ⟨i, setPhase_self ..⟩
  · refine List.pairwise_append.2 ⟨h.apart, List.pairwise_singleton .., fun r hr r' hr' => ⟨fun hpath => ?_, ?_⟩⟩
    · obtain rfl := List.mem_singleton.1 hr'
      obtain ⟨j, hj⟩ := h.origin r hr
      have hother := h.session j
      rw [hj] at hother
      obtain rfl := hother.1.storesAt.unique (hpath ▸ hrow.storesAt)
      cases hphase.symm.trans hj
    · obtain rfl := List.mem_singleton.1 hr'
      exact fun e he he' => (hclaims e he').2 r hr he

theorem Inv.lookup {e : Id} (h : Inv u s) (hphase : s.phase i = .idle) : Inv u (s.lookup i e) := by
  unfold State.lookup
  split_ifs
  · exact h.setPhase (hphase ▸ id) trivial
  · exact h.refuse (hphase ▸ id)

theorem Inv.checkDuplicate {e : Id} (h : Inv u s) (hphase : s.phase i = .found) :
    Inv u (s.checkDuplicate i e) := by
  unfold State.checkDuplicate
  split
  · exact h.setPhase (hphase ▸ id) trivial
  · exact h.refuse (hphase ▸ id)

theorem Inv.resolve (h : Inv u s) (hphase : s.phase i = .checked) (ha : u.uploads[i]? = some a) :
    Inv u (s.resolve i (u.path a)) := by
  unfold State.resolve
  split
  · rename_i path hpath
    exact h.setPhase (hphase ▸ id) ⟨a, ha, hpath⟩
  · exact h.refuse (hphase ▸ id)
  · exact h.refuse (hphase ▸ id)

theorem Inv.act {x : Act} (h : Inv u s) (ha : u.uploads[i]? = some a)
    (hs : act u a s i (s.phase i) x = some s') : Inv u s' := by
  unfold StoreUpload.act at hs
  split at hs
  · -- lookup
    rename_i hphase
    obtain rfl := Option.some.inj hs
    split
    · exact h.setPhase (hphase ▸ id) trivial
    · split_ifs
      · exact h.lookup hphase
      · exact h.refuse (hphase ▸ id)
  · -- checkDuplicate
    rename_i hphase
    obtain ⟨e, -, rfl⟩ := Option.map_eq_some_iff.1 hs
    split_ifs
    · exact h.checkDuplicate hphase
    · exact h.refuse (hphase ▸ id)
  · -- resolve
    rename_i hphase
    obtain rfl := Option.some.inj hs
    split_ifs
    · exact h.resolve hphase ha
    · exact h.refuse (hphase ▸ id)
  · -- flush
    rename_i path answered hphase
    have hi := h.session i
    rw [hphase] at hi
    obtain ⟨b, hb, hpath⟩ := hi
    obtain rfl := Option.some.inj (ha.symm.trans hb)
    split_ifs at hs
    · exact h.drawId.insert hphase ⟨a, ha, hpath, rfl⟩ hs
    · obtain rfl := Option.some.inj hs
      exact h.refuse (hphase ▸ id)
  · -- writeBytes
    rename_i hphase
    obtain rfl := Option.some.inj hs
    exact h.writeBytes hphase ha
  · -- writeFails
    rename_i hphase
    obtain rfl := Option.some.inj hs
    exact h.writeFails hphase _ _
  · -- commit
    rename_i hphase
    obtain rfl := Option.some.inj hs
    split_ifs
    · exact h.commit hphase
    · exact h.raise (hphase ▸ nofun) fun _ => .inr (.inr rfl)
  · cases hs
  · cases hs
  · -- interrupt
    rename_i hlive _
    obtain rfl := Option.some.inj hs
    exact h.raise hlive fun _ => .inr (.inl rfl)
  · cases hs

theorem Inv.step {ev : Event} (h : Inv u s) (hs : step u s ev = some s') : Inv u s' := by
  cases ev with
  | expense e =>
    obtain rfl := Option.some.inj hs
    exact ⟨fun j => (h.session j).frame (.of_eq rfl rfl rfl), h.origin, h.apart, h.touched⟩
  | act i x =>
    obtain ⟨a, ha, hact⟩ := Option.bind_eq_some_iff.1 hs
    exact h.act ha hact

theorem Inv.init (u : Setup) : Inv u (State.init u) where
  session _ := trivial
  origin := by simp [State.init]
  apart := List.Pairwise.nil
  touched _ h := absurd rfl h

/-! ## Runs -/

theorem Inv.committed (h : Inv u s) {r : Receipt} (hr : r ∈ s.receipts) :
    ∃ i, s.phase i = .committed r ∧ u.Inserts i r ∧ Stored u s i r := by
  obtain ⟨i, hi⟩ := h.origin r hr
  have hsession := h.session i
  rw [hi] at hsession
  exact ⟨i, hi, hsession.1, hsession.2.2⟩

theorem Inv.single (h : Inv u s) (e : Id) : (s.receipts.filter fun r => r.expenseId = some e).length ≤ 1 := by
  have hapart := h.apart.filter fun r => r.expenseId = some e
  have hall : ∀ r ∈ s.receipts.filter fun r => r.expenseId = some e, r.expenseId = some e := fun r hr =>
    of_decide_eq_true (List.mem_filter.1 hr).2
  generalize s.receipts.filter (fun r => r.expenseId = some e) = rows at hapart hall
  match rows with
  | [] => exact Nat.zero_le 1
  | [_] => exact le_rfl
  | r :: r' :: rows =>
    have hpair := (List.pairwise_cons.1 hapart).1 r' (by simp)
    exact absurd (hall r' (by simp)) (hpair.2 e (hall r (by simp)))

theorem Inv.prefixes (h : Inv u s) : (s.receipts.map fun r => namePrefix r.storagePath).Nodup := by
  refine List.pairwise_map.2 (h.apart.imp_of_mem fun {r r'} hr hr' hapart heq => hapart.1 ?_)
  obtain ⟨i, hi, hrow, -⟩ := h.committed hr
  obtain ⟨j, hj, hrow', -⟩ := h.committed hr'
  obtain rfl := hrow.storesAt.prefix_inj hrow'.storesAt heq
  rw [Phase.committed.inj (hi.symm.trans hj)]

/-- In every state of every run, whatever fails: a committed receipt has its file, with the bytes of the
request that inserted it, under a name that begins with the request's UUID; no expense has two receipts; a
request that raised has no row, and no file where its flush failed. -/
theorem committed_has_file {tr : List (State × Event)}
    (hrun : Run (Fires (StoreUpload.step u)) (State.init u) tr s) :
    (∀ r ∈ s.receipts, ∃ i a root, s.phase i = .committed r ∧ u.uploads[i]? = some a ∧
        resolve u.fs u.storage = some root ∧ r = a.receipt r.id (root ++ [storedName a.uuid a.filename]) ∧
        namePrefix r.storagePath = a.uuid.digits.map codePoint ∧ s.files r.storagePath = some a.content) ∧
      (∀ e, (s.receipts.filter fun r => r.expenseId = some e).length ≤ 1) ∧
      (∀ i stage error, s.phase i = .raised stage error → ∀ r ∈ s.receipts, ¬ u.Inserts i r) ∧
      (∀ i error path, s.phase i = .raised .flush error → u.StoresAt i path → s.files path = none) ∧
      (s.receipts.map fun r => namePrefix r.storagePath).Nodup := by
  have h : Inv u s := hrun.invariant (Inv.init u) fun _ _ _ hi hs => hi.step hs
  refine ⟨fun r hr => ?_, h.single, fun i stage error hphase r hr hrow => ?_,
    fun i error path hphase hpath => ?_, h.prefixes⟩
  · obtain ⟨i, hphase, ⟨a, ha, hpath, hrow⟩, b, hb, hfile⟩ := h.committed hr
    obtain rfl := Option.some.inj (ha.symm.trans hb)
    obtain ⟨root, hroot, heq⟩ := u.path_eq (List.mem_of_getElem? ha) hpath
    refine ⟨i, a, root, hphase, ha, hroot, heq ▸ hrow, ?_, hfile⟩
    rw [heq, prefix_storedName]
  · obtain ⟨j, hcommitted, hrow', -⟩ := h.committed hr
    obtain rfl := hrow.storesAt.unique hrow'.storesAt
    cases hphase.symm.trans hcommitted
  · by_contra hfile
    obtain ⟨j, hstores, hwrote⟩ := h.touched path (hpath.unused ▸ hfile)
    obtain rfl := hpath.unique hstores
    rw [hphase] at hwrote
    rcases hwrote with h | h | h <;> cases h

def uuidOf (c : Char) (h : c.isDigit = true) : UuidHex where
  digits := List.replicate 32 c
  hexadecimal := fun _ hd => .inl (List.eq_of_mem_replicate hd ▸ h)
  length := List.length_replicate

/-- Three uploads for one expense and one for none. -/
def demoUploads : List Upload :=
  [⟨py "../scan.txt", py "text/plain", [104, 105], some 7, uuidOf '0' rfl⟩,
    ⟨py "scan.txt", py "text/plain", [104, 111], some 7, uuidOf '1' rfl⟩,
    ⟨py "note.txt", [], [110], none, uuidOf '2' rfl⟩,
    ⟨py "scan.txt", py "text/plain", [104], some 7, uuidOf '3' rfl⟩]

def demoSetup : Setup where
  fs := ⟨[], []⟩
  storage := Path.parse (py "/data")
  files := fun _ => none
  uploads := demoUploads
  distinct := by decide +kernel
  unused := fun _ _ _ _ _ => ⟨rfl, rfl⟩

/-- A write, a commit and a flush fail. -/
def demoEvents : List Event :=
  .expense 7 :: ([0, 1, 3].flatMap fun i => [.act i (.lookup true), .act i (.checkDuplicate true),
      .act i (.resolve true)]) ++
    [.act 1 (.flush true), .act 1 (.writeFails (some 1)), .act 0 (.flush true), .act 2 (.lookup true),
      .act 2 (.resolve true), .act 2 (.flush true), .act 0 .writeBytes, .act 2 .writeBytes,
      .act 2 (.commit false), .act 0 (.commit true), .act 3 (.flush true)]

theorem committed_has_file_race : ∃ tr s, Run (Fires (step demoSetup)) (State.init demoSetup) tr s ∧
    s.receipts.map (·.id) = [2] ∧
      (∀ r ∈ s.receipts, ∃ i a root, s.phase i = .committed r ∧ demoSetup.uploads[i]? = some a ∧
        resolve demoSetup.fs demoSetup.storage = some root ∧
          r = a.receipt r.id (root ++ [storedName a.uuid a.filename]) ∧
            namePrefix r.storagePath = a.uuid.digits.map codePoint ∧ s.files r.storagePath = some a.content) ∧
      s.phase 3 = .raised .flush (some (.conflict "Expense 7 already has a receipt")) ∧
        ∀ path, demoSetup.StoresAt 3 path → s.files path = none := by
  have hdemo : (drive (step demoSetup) (State.init demoSetup) demoEvents).map
      (fun r => (r.2.receipts.map (·.id), r.2.phase 3)) =
        some ([2], .raised .flush (some (.conflict "Expense 7 already has a receipt"))) := by decide +kernel
  obtain ⟨⟨tr, s⟩, hdrive, hend⟩ := Option.map_eq_some_iff.1 hdemo
  obtain ⟨hids, hphase⟩ := Prod.mk.inj hend
  have hrun := run_of_drive hdrive
  obtain ⟨hfiles, -, -, hnone, -⟩ := committed_has_file hrun
  exact ⟨tr, s, hrun, hids, hfiles, hphase, fun path => hnone 3 _ path hphase⟩

end ReckonFlow.StoreUpload
