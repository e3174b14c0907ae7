import ReckonFlow.Proofs.ImportSessions

/-! Two concurrent imports come to wait for each other exactly if they do not meet at the same
external id first. -/

namespace ReckonFlow.ImportSession

open Lts Locks

variable {U : Unicode} {env : Env} {file : ℕ → List UInt8} {db₀ : Db} {s s' : State} {ev : Event}
  {i j : ℕ} {w : Work}

/-! ## The ids an import takes -/

/-- What the loop makes of a row while nobody else commits. -/
inductive Round where
  | skip
  /-- the row does not fit its columns -/
  | stop
  | present (key : String)
  | take (key : String)

def round (env : Env) (db : Db) (seen : List String) (row : BankCsvRow) : Round :=
  match row.key with
  | none => .skip
  | some key =>
      if key ∈ seen then .skip
      else match bankValues env row with
        | .error _ => .stop
        | .ok _ => if ExternalIdTaken db (some key) then .present key else .take key

/-- The external ids under which the loop inserts from here on. -/
def ahead (env : Env) (db : Db) : List String → List BankCsvRow → List String
  | _, [] => []
  | seen, row :: rows => match round env db seen row with
      | .skip => ahead env db seen rows
      | .stop => []
      | .present key => ahead env db (key :: seen) rows
      | .take key => key :: ahead env db (key :: seen) rows

/-- The external ids under which an import of `content` inserts, in order. -/
def takes (U : Unicode) (env : Env) (db : Db) (content : List UInt8) : List String :=
  match readFile U env content with
  | .importing w => ahead env db w.seenInFile w.todo
  | _ => []

theorem takes_importing (db : Db) {content : List UInt8} {w : Work}
    (h : readFile U env content = .importing w) :
    takes U env db content = ahead env db w.seenInFile w.todo := by
  simp only [takes, h]

section Ahead

variable {db : Db} {seen : List String} {row : BankCsvRow} {rows : List BankCsvRow} {k : String}
  {v : BankValues}

theorem ahead_none (h : row.key = none) :
    ahead env db seen (row :: rows) = ahead env db seen rows := by
  have hround : round env db seen row = .skip := by rw [round, h]
  rw [ahead, hround]

theorem ahead_seen (h : row.key = some k) (hk : k ∈ seen) :
    ahead env db seen (row :: rows) = ahead env db seen rows := by
  have hround : round env db seen row = .skip := by simp only [round, h, if_pos hk]
  rw [ahead, hround]

theorem ahead_error {e : Error} (h : row.key = some k) (hk : k ∉ seen)
    (hv : bankValues env row = .error e) : ahead env db seen (row :: rows) = [] := by
  have hround : round env db seen row = .stop := by simp only [round, h, hv, if_neg hk]
  rw [ahead, hround]

theorem ahead_present (h : row.key = some k) (hk : k ∉ seen) (hv : bankValues env row = .ok v)
    (htaken : ExternalIdTaken db (some k)) :
    ahead env db seen (row :: rows) = ahead env db (k :: seen) rows := by
  have hround : round env db seen row = .present k := by
    simp only [round, h, hv, if_neg hk, if_pos htaken]
  rw [ahead, hround]

theorem ahead_sent (h : row.key = some k) (hk : k ∉ seen) (hv : bankValues env row = .ok v)
    (htaken : ¬ ExternalIdTaken db (some k)) :
    ahead env db seen (row :: rows) = k :: ahead env db (k :: seen) rows := by
  have hround : round env db seen row = .take k := by
    simp only [round, h, hv, if_neg hk, if_neg htaken]
  rw [ahead, hround]

end Ahead

/-! ## No circle -/

/-- Until somebody commits, what an import has taken and what lies ahead is what it takes. -/
def OnTrack (U : Unicode) (env : Env) (file : ℕ → List UInt8) (db₀ : Db) (s : State) : Prop :=
  s.imports = [] → ∀ i w, s.phase i = .importing w →
    takes U env db₀ (file i) =
      w.rows.filterMap (·.externalId) ++ ahead env db₀ w.seenInFile w.todo

theorem OnTrack.move (h : OnTrack U env file db₀ s) (himports : s'.imports = s.imports)
    (hothers : ∀ j ≠ i, s'.phase j = s.phase j)
    (hi : s.imports = [] → ∀ w, s'.phase i = .importing w → takes U env db₀ (file i) =
      w.rows.filterMap (·.externalId) ++ ahead env db₀ w.seenInFile w.todo) :
    OnTrack U env file db₀ s' := by
  intro hnil j w hj
  rw [himports] at hnil
  by_cases hji : j = i
  · subst hji
    exact hi hnil w hj
  · exact h hnil j w ((hothers j hji).symm.trans hj)

theorem OnTrack.step (h : OnTrack U env file db₀ s) (hinv : Inv U env file db₀ s)
    (hs : ImportSession.step U env file s ev = some s') : OnTrack U env file db₀ s' := by
  have hdb : s.imports = [] → s.db = db₀ := by
    intro hnil
    rw [hinv.history, hnil]
    rfl
  cases moved_of_step hs with
  | @started i hphase =>
    refine h.move rfl (fun j hj => setPhase_of_ne _ _ hj) fun _ w hw => ?_
    rw [setPhase_self] at hw
    rw [takes_importing db₀ hw]
    rcases readFile_cases U env (file i) with ⟨e, he⟩ | ⟨-, errors, he⟩ | ⟨parsed, he⟩
    · cases he.symm.trans hw
    · cases he.symm.trans hw
    · -- nothing is taken yet
      obtain rfl := Phase.importing.inj (he.symm.trans hw)
      rw [List.filterMap_nil, List.nil_append]
  | @queued i w row todo hphase htodo hkey =>
    refine h.move rfl (fun j hj => setPhase_of_ne _ _ hj) fun hnil w' hw => ?_
    rw [setPhase_self] at hw
    obtain rfl := Phase.importing.inj hw
    rw [h hnil i w hphase, htodo, ahead_none hkey]
  | @repeated i w row todo k hphase htodo hkey hseen =>
    refine h.move rfl (fun j hj => setPhase_of_ne _ _ hj) fun hnil w' hw => ?_
    rw [setPhase_self] at hw
    obtain rfl := Phase.importing.inj hw
    rw [h hnil i w hphase, htodo, ahead_seen hkey hseen]
  | @present i w row todo k v hphase htodo hkey hseen hv hfree htaken =>
    refine h.move rfl (fun j hj => setPhase_of_ne _ _ hj) fun hnil w' hw => ?_
    rw [setPhase_self] at hw
    obtain rfl := Phase.importing.inj hw
    obtain ⟨done, hi⟩ : SessionInv U env file s i (.importing w) := hphase ▸ hinv.session i
    rw [hi.externalId htodo hkey hv, hdb hnil] at htaken
    rw [h hnil i w hphase, htodo, ahead_present hkey hseen hv htaken]
  | @sent i w row todo k v hphase htodo hkey hseen hv hfree htaken =>
    refine h.move rfl (fun j hj => setPhase_of_ne _ _ hj) fun hnil w' hw => ?_
    rw [setPhase_self] at hw
    obtain rfl := Phase.importing.inj hw
    obtain ⟨done, hi⟩ : SessionInv U env file s i (.importing w) := hphase ▸ hinv.session i
    have hext := hi.externalId htodo hkey hv
    rw [hext, hdb hnil] at htaken
    rw [h hnil i w hphase, htodo, ahead_sent hkey hseen hv htaken, List.filterMap_append,
      List.filterMap_cons_some hext, List.append_assoc]
    rfl
  | flushed hphase htodo hvs =>
    refine h.move rfl (fun j hj => setPhase_of_ne _ _ hj) fun _ w hw => ?_
    rw [setPhase_self] at hw
    cases hw
  | committed hphase =>
    intro hnil
    have himports : s.imports ++ [_] = [] := hnil
    simp at himports
  | @dropped ev i p hev hlive hdrop =>
    refine h.move rfl (fun j hj => setPhase_of_ne _ _ hj) fun _ w hw => ?_
    have hself : (s.finish i p).phase i = p := setPhase_self ..
    rw [hself] at hw
    rcases hdrop with ⟨e, rfl⟩ | rfl
    · cases hw
    · cases hw

theorem Waits.stands (hwaits : Waits env s i j) (h : Inv U env file db₀ s)
    (htrack : OnTrack U env file db₀ s) (hnil : s.imports = []) : ∃ w k rest,
    s.phase i = .importing w ∧ s.lock k = some j ∧
      takes U env db₀ (file i) = w.rows.filterMap (·.externalId) ++ k :: rest := by
  obtain ⟨-, w, row, todo, k, v, hphase, htodo, hkey, hseen, hv, hlock⟩ := hwaits
  have hdb : s.db = db₀ := by
    rw [h.history, hnil]
    rfl
  have hfree : ¬ ExternalIdTaken db₀ (some k) := hdb ▸ h.fresh k j hlock
  have htakes := htrack hnil i w hphase
  rw [htodo, ahead_sent hkey hseen hv hfree] at htakes
  exact ⟨w, k, _, hphase, hlock, htakes⟩

/-- The locks of a session are the ids of its rows. -/
theorem Inv.mem_rows (h : Inv U env file db₀ s) (hphase : s.phase i = .importing w) {k : String} :
    k ∈ w.rows.filterMap (·.externalId) ↔ s.lock k = some i := by
  obtain ⟨done, hi⟩ : SessionInv U env file s i (.importing w) := hphase ▸ h.session i
  rw [List.mem_filterMap]
  constructor
  · rintro ⟨v, hv, hk⟩
    obtain ⟨k', hk', hlock⟩ := hi.held.own v hv
    obtain rfl := Option.some.inj (hk.symm.trans hk')
    exact hlock
  · exact hi.held.held k

theorem firstShared_of_circle (h : Inv U env file db₀ s) (htrack : OnTrack U env file db₀ s)
    (hnil : s.imports = []) (hi : Waits env s i j) (hj : Waits env s j i) :
    firstShared (takes U env db₀ (file i)) (takes U env db₀ (file j)) ≠
      firstShared (takes U env db₀ (file j)) (takes U env db₀ (file i)) := by
  obtain ⟨w, y, rest, hphase, hy, htakes⟩ := hi.stands h htrack hnil
  obtain ⟨w', x, rest', hphase', hx, htakes'⟩ := hj.stands h htrack hnil
  rw [htakes, htakes']
  refine firstShared_ne ((h.mem_rows hphase).2 hx) ((h.mem_rows hphase').2 hy) fun k hk hk' => ?_
  have hlock := ((h.mem_rows hphase).1 hk).symm.trans ((h.mem_rows hphase').1 hk')
  exact hi.1 (Option.some.inj hlock)

/-! ## A circle -/

/-- Session `i` stands at a row that would insert under `k`, with `rest` ahead of it. -/
inductive Stands (env : Env) (s : State) (i : ℕ) (k : String) (rest : List String) : Prop
  | intro {w : Work} {row : BankCsvRow} {todo : List BankCsvRow} {v : BankValues}
      (hphase : s.phase i = .importing w) (htodo : w.todo = row :: todo) (hkey : row.key = some k)
      (hseen : k ∉ w.seenInFile) (hv : bankValues env row = .ok v)
      (hvalid : ∀ r ∈ w.todo, Validated r)
      (hahead : ahead env s.db w.seenInFile w.todo = k :: rest)

theorem Stands.waits {k : String} {rest : List String} (h : Stands env s i k rest) (hij : i ≠ j)
    (hphase : s'.phase i = s.phase i) (hlock : s'.lock k = some j) : Waits env s' i j := by
  obtain ⟨hp, htodo, hkey, hseen, hv, -, -⟩ := h
  exact ⟨hij, _, _, _, _, _, hphase.trans hp, htodo, hkey, hseen, hv, hlock⟩

/-- Where rounds of session `i` alone lead: it has taken `c`, and nothing else has changed. -/
structure Reaches (U : Unicode) (env : Env) (file : ℕ → List UInt8) (i : ℕ) (c : List String)
    (s s' : State) : Prop where
  run : ∃ tr, Run (Fires (step U env file)) s tr s' ∧ ∀ p ∈ tr, p.2 = .insert i
  db : s'.db = s.db
  lock : ∀ k, s'.lock k = if k ∈ c then some i else s.lock k
  phase : ∀ j ≠ i, s'.phase j = s.phase j

theorem Reaches.refl : Reaches U env file i [] s s where
  run := ⟨[], .nil, by simp⟩
  db := rfl
  lock := by simp
  phase := fun _ _ => rfl

theorem Reaches.head {c : List String} {t : State} (hs : step U env file s (.insert i) = some s')
    {k : Option String} (hdb : s'.db = s.db)
    (hlock : ∀ e, s'.lock e = if some e = k then some i else s.lock e)
    (hphase : ∀ j ≠ i, s'.phase j = s.phase j) (h : Reaches U env file i c s' t) :
    Reaches U env file i (k.toList ++ c) s t where
  run := by
    obtain ⟨tr, hrun, htr⟩ := h.run
    exact ⟨_, hrun.cons hs, List.forall_mem_cons.2 ⟨rfl, htr⟩⟩
  db := h.db.trans hdb
  lock := by
    intro e
    rw [h.lock, hlock]
    simp only [List.mem_append, Option.mem_toList]
    by_cases he : e ∈ c
    · rw [if_pos he, if_pos (.inr he)]
    · rw [if_neg he]
      by_cases hk : some e = k
      · rw [if_pos hk, if_pos (.inl hk.symm)]
      · rw [if_neg hk, if_neg (fun hor => hor.elim (fun h' => hk h'.symm) he)]
  phase := fun j hj => (h.phase j hj).trans (hphase j hj)

/-- What the next round of session `i` makes of its row, while no lock is under a stored id. -/
theorem insert_cases (U : Unicode) (env : Env) (file : ℕ → List UInt8) {row : BankCsvRow} {rows : List BankCsvRow}
    (hphase : s.phase i = .importing w) (htodo : w.todo = row :: rows) (hvalid : Validated row)
    (hfresh : ∀ e j, s.lock e = some j → ¬ Stored s.db e) :
    (∃ w', step U env file s (.insert i) = some (s.setPhase i (.importing w')) ∧ w'.todo = rows ∧
      ahead env s.db w.seenInFile (row :: rows) = ahead env s.db w'.seenInFile rows) ∨
    ahead env s.db w.seenInFile (row :: rows) = [] ∨
    ∃ key v, row.key = some key ∧ key ∉ w.seenInFile ∧ bankValues env row = .ok v ∧
      ¬ Stored s.db key ∧
      ahead env s.db w.seenInFile (row :: rows) = key :: ahead env s.db (key :: w.seenInFile) rows ∧
      (s.lock.Free i key → ∃ w',
        step U env file s (.insert i) = some ((s.take i key).setPhase i (.importing w')) ∧
        w'.todo = rows ∧ w'.seenInFile = key :: w.seenInFile) := by
  have hs : step U env file s (.insert i) = insertRow env s i { w with todo := rows } row := by
    simp only [step, hphase, htodo]
  rw [hs]
  unfold insertRow
  cases hkey : row.key with
  | none => exact .inl ⟨_, rfl, rfl, ahead_none hkey⟩
  | some key =>
    by_cases hseen : key ∈ w.seenInFile
    · exact .inl ⟨_, if_pos hseen, rfl, ahead_seen hkey hseen⟩
    · simp only [if_neg hseen]
      cases hv : bankValues env row with
      | error e => exact .inr (.inl (ahead_error hkey hseen hv))
      | ok v =>
        have hext : v.externalId = some key :=
          (hvalid.externalId hv).trans (hvalid.key.symm.trans hkey)
        by_cases htaken : ExternalIdTaken s.db (some key)
        · have hfree : s.lock.Free i key := by
            by_contra hheld
            obtain ⟨j, hj⟩ := Locks.not_free hheld
            exact hfresh key j hj htaken
          simp only [hext, if_pos hfree, if_pos htaken]
          exact .inl ⟨_, rfl, rfl, ahead_present hkey hseen hv htaken⟩
        · refine .inr (.inr ⟨key, v, rfl, hseen, rfl, htaken, ahead_sent hkey hseen hv htaken, ?_⟩)
          intro hfree
          simp only [hext, if_pos hfree, if_neg htaken]
          exact ⟨_, rfl, rfl, rfl⟩

/-- Locks that no other session has can be taken one after the other. -/
theorem advance (U : Unicode) (file : ℕ → List UInt8) {rows : List BankCsvRow} {c rest : List String}
    {k : String} (hphase : s.phase i = .importing w) (htodo : w.todo = rows)
    (hvalid : ∀ r ∈ rows, Validated r) (hfresh : ∀ e j, s.lock e = some j → ¬ Stored s.db e)
    (hahead : ahead env s.db w.seenInFile rows = c ++ k :: rest)
    (hfree : ∀ e ∈ c, s.lock.Free i e) :
    ∃ s', Reaches U env file i c s s' ∧ Stands env s' i k rest := by
  induction rows generalizing s w c with
  | nil =>
    rw [ahead] at hahead
    simp at hahead
  | cons row rows ih =>
    have hvalid' : ∀ r ∈ rows, Validated r := fun r hr => hvalid r (List.mem_cons_of_mem _ hr)
    rcases insert_cases U env file hphase htodo (hvalid row (List.mem_cons_self ..)) hfresh with
      ⟨w', hs, htodo', he⟩ | hnil | ⟨key, v, hkey, hseen, hv, hstored, he, htake⟩
    · obtain ⟨s', hreaches, hstands⟩ :=
        ih (setPhase_self s i _) htodo' hvalid' hfresh (he.symm.trans hahead) hfree
      have hlock : ∀ e, s.lock e = if some e = none then some i else s.lock e := by simp
      exact ⟨s', hreaches.head hs rfl hlock fun j hj => setPhase_of_ne _ _ hj, hstands⟩
    · rw [hnil] at hahead
      simp at hahead
    · cases c with
      | nil =>
        obtain ⟨rfl, -⟩ := List.cons.inj (he.symm.trans hahead)
        exact ⟨s, .refl, .intro hphase htodo hkey hseen hv (htodo ▸ hvalid) (htodo ▸ hahead)⟩
      | cons e c =>
        obtain ⟨rfl, hrest⟩ := List.cons.inj (he.symm.trans hahead)
        obtain ⟨w', hs, htodo', hseen'⟩ := htake (hfree key (List.mem_cons_self ..))
        have hfresh' : ∀ e j, (s.take i key).lock e = some j → ¬ Stored s.db e := by
          intro e j he
          by_cases hek : e = key
          · exact hek ▸ hstored
          · exact hfresh e j ((Function.update_of_ne hek ..).symm.trans he)
        obtain ⟨s', hreaches, hstands⟩ := ih (setPhase_self (s.take i key) i _) htodo' hvalid' hfresh'
          (hseen' ▸ hrest) fun e he => (hfree e (List.mem_cons_of_mem _ he)).take
        have hlock : ∀ e, (s.take i key).lock e = if some e = some key then some i else s.lock e := by
          intro e
          by_cases hek : e = key
          · rw [hek, if_pos rfl]
            exact take_self
          · rw [if_neg fun he => hek (Option.some.inj he)]
            exact Function.update_of_ne hek ..
        exact ⟨s', hreaches.head hs rfl hlock fun j hj => setPhase_of_ne _ _ hj, hstands⟩

/-- The run of two sessions only. -/
def Pair (i j : ℕ) (tr : List (State × Event)) : Prop :=
  ∀ p ∈ tr, p.2.session = i ∨ p.2.session = j

theorem start_importing (h : takes U env db₀ (file i) ≠ []) (hidle : s.phase i = .idle) : ∃ w,
    step U env file s (.start i) = some (s.setPhase i (.importing w)) ∧
      (∀ r ∈ w.todo, Validated r) ∧ takes U env db₀ (file i) = ahead env db₀ w.seenInFile w.todo := by
  rcases readFile_cases U env (file i) with ⟨e, he⟩ | ⟨-, errors, he⟩ | ⟨parsed, he⟩
  · simp only [takes, he, ne_eq, not_true_eq_false] at h
  · simp only [takes, he, ne_eq, not_true_eq_false] at h
  · have htakes := takes_importing db₀ he
    refine ⟨{ parsed, todo := fileRows U env (file i) }, ?_, fun r hr => fileRows_validated hr, htakes⟩
    simp only [step, hidle, he]

/-- Two imports that take different shared ids first can come to wait for each other. -/
theorem circle_reachable (hij : i ≠ j) (hne : firstShared (takes U env db₀ (file i))
    (takes U env db₀ (file j)) ≠ firstShared (takes U env db₀ (file j)) (takes U env db₀ (file i))) :
    ∃ tr s, Run (Fires (step U env file)) (State.init db₀) tr s ∧ Pair i j tr ∧
      Waits env s i j ∧ Waits env s j i := by
  obtain ⟨c, q, c', d, d', k, d'', hi, hj, hcd, hd', hk⟩ := exists_circle hne
  -- both files are read
  have hnei : takes U env db₀ (file i) ≠ [] := by simp [hi]
  have hnej : takes U env db₀ (file j) ≠ [] := by simp [hj]
  obtain ⟨wi, hstarti, hvalidi, htakesi⟩ := start_importing hnei (show (State.init db₀).phase i = .idle from rfl)
  obtain ⟨wj, hstartj, hvalidj, htakesj⟩ := start_importing hnej
    (show ((State.init db₀).setPhase i (.importing wi)).phase j = .idle from setPhase_of_ne _ _ hij.symm)
  have hrun₂ := (Run.nil.fire _ _ hstarti).fire _ _ hstartj
  generalize hs₂ : ((State.init db₀).setPhase i (.importing wi)).setPhase j (.importing wj) = s₂
    at hrun₂
  have hdb₂ : s₂.db = db₀ := by
    rw [← hs₂]
    rfl
  have hlock₂ : ∀ e, s₂.lock e = none := by
    rw [← hs₂]
    exact fun _ => rfl
  have hphasei : s₂.phase i = .importing wi := by
    rw [← hs₂, setPhase_of_ne _ _ hij, setPhase_self]
  have hphasej : s₂.phase j = .importing wj := by
    rw [← hs₂, setPhase_self]
  -- session `j` goes past `q`
  obtain ⟨k₀, rest, hrest⟩ : ∃ k₀ rest, d' ++ k :: d'' = k₀ :: rest := by
    cases d' with
    | nil => exact ⟨k, d'', rfl⟩
    | cons e d' => exact ⟨e, d' ++ k :: d'', rfl⟩
  have hahead₃ : ahead env s₂.db wj.seenInFile wj.todo = (d ++ [q]) ++ k₀ :: rest := by
    rw [hdb₂, ← htakesj, hj, hrest]
  obtain ⟨s₃, hreaches₃, hstands₃⟩ := advance U file hphasej rfl hvalidj
    (fun e m he => by rw [hlock₂] at he; cases he) hahead₃ fun e _ => .inl (hlock₂ e)
  obtain ⟨tr₃, hrun₃, htr₃⟩ := hreaches₃.run
  have hrun₃ := hrun₂.append hrun₃
  have hinv₃ : Inv U env file db₀ s₃ := hrun₃.invariant .init fun _ _ _ hI hs => hI.step hs
  -- session `i` goes up to `q`
  have hqc : q ∉ c := fun h => hcd q h (List.mem_append_right _ (List.mem_singleton_self q))
  have hahead₄ : ahead env s₃.db wi.seenInFile wi.todo = c ++ q :: c' := by
    rw [hreaches₃.db, hdb₂, ← htakesi, hi]
  obtain ⟨s₄, hreaches₄, hstands₄⟩ := advance U file
    ((hreaches₃.phase i hij).trans hphasei) rfl hvalidi hinv₃.fresh hahead₄
    fun e he => .inl (by rw [hreaches₃.lock, if_neg (hcd e he), hlock₂])
  obtain ⟨tr₄, hrun₄, htr₄⟩ := hreaches₄.run
  have hrun₄ := hrun₃.append hrun₄
  have hinv₄ : Inv U env file db₀ s₄ := hrun₄.invariant .init fun _ _ _ hI hs => hI.step hs
  have hlockq : s₄.lock q = some j := by
    rw [hreaches₄.lock, if_neg hqc, hreaches₃.lock,
      if_pos (List.mem_append_right _ (List.mem_singleton_self q))]
  have hlockk : s₄.lock k = some i := by rw [hreaches₄.lock, if_pos hk]
  -- session `j` goes on to the first id that `i` has
  obtain ⟨hphase₃, -, -, -, -, hvalid₃, hahead₅⟩ := hstands₃
  rw [← hrest, ← hreaches₄.db] at hahead₅
  obtain ⟨s₅, hreaches₅, hstands₅⟩ := advance U file
    ((hreaches₄.phase j hij.symm).trans hphase₃) rfl hvalid₃ hinv₄.fresh hahead₅ fun e he => by
      unfold Free
      rw [hreaches₄.lock, if_neg (hd' e he), hreaches₃.lock, hlock₂]
      split_ifs
      · exact .inr rfl
      · exact .inl rfl
  obtain ⟨tr₅, hrun₅, htr₅⟩ := hreaches₅.run
  have hkd' : k ∉ d' := fun h => hd' k h hk
  refine ⟨_, s₅, hrun₄.append hrun₅, ?_, ?_, ?_⟩
  · simp only [Pair, List.mem_append, List.mem_singleton, List.not_mem_nil, false_or, or_imp,
      forall_and, forall_eq]
    refine ⟨⟨⟨⟨.inl rfl, .inr rfl⟩, fun p hp => ?_⟩, fun p hp => ?_⟩, fun p hp => ?_⟩
    · exact .inr (congrArg Event.session (htr₃ p hp))
    · exact .inl (congrArg Event.session (htr₄ p hp))
    · exact .inr (congrArg Event.session (htr₅ p hp))
  · refine hstands₄.waits hij (hreaches₅.phase i hij) ?_
    rw [hreaches₅.lock, hlockq, ite_self]
  · refine hstands₅.waits hij.symm rfl ?_
    rw [hreaches₅.lock, if_neg hkd', hlockk]

theorem phase_of_step (hs : step U env file s ev = some s') {m : ℕ} (hm : m ≠ ev.session) :
    s'.phase m = s.phase m := by
  cases moved_of_step hs with
  | started hphase => exact setPhase_of_ne _ _ hm
  | queued hphase htodo hkey => exact setPhase_of_ne _ _ hm
  | repeated hphase htodo hkey hseen => exact setPhase_of_ne _ _ hm
  | present hphase htodo hkey hseen hv hfree htaken => exact setPhase_of_ne _ _ hm
  | sent hphase htodo hkey hseen hv hfree htaken => exact setPhase_of_ne _ _ hm
  | flushed hphase htodo hvs => exact setPhase_of_ne _ _ hm
  | committed hphase => exact setPhase_of_ne _ _ hm
  | dropped hev hlive hdrop => exact setPhase_of_ne _ _ (hev ▸ hm)

/-- Two concurrent imports, in any order of their steps, never wait for each other exactly if
the first id that one of them inserts under and the other as well is the same for both. -/
theorem no_circle_iff (U : Unicode) (env : Env) (file : ℕ → List UInt8) (db₀ : Db) (hij : i ≠ j) :
    (∀ tr s, Run (Fires (step U env file)) (State.init db₀) tr s → Pair i j tr →
      ¬ (Waits env s i j ∧ Waits env s j i)) ↔
    firstShared (takes U env db₀ (file i)) (takes U env db₀ (file j)) =
      firstShared (takes U env db₀ (file j)) (takes U env db₀ (file i)) := by
  constructor
  · intro hall
    by_contra hne
    obtain ⟨tr, s, hrun, hpair, hwaits⟩ := circle_reachable hij hne
    exact hall tr s hrun hpair hwaits
  · rintro heq tr s hrun hpair ⟨hi, hj⟩
    have hinv : Inv U env file db₀ s ∧ OnTrack U env file db₀ s :=
      hrun.invariant (I := fun s => Inv U env file db₀ s ∧ OnTrack U env file db₀ s)
        ⟨.init, by rintro - i w ⟨⟩⟩ fun _ _ _ hI hs => ⟨hI.1.step hs, hI.2.step hI.1 hs⟩
    have hothers : ∀ m, m ≠ i → m ≠ j → s.phase m = .idle := by
      have hkeep : ∀ (s : State) (e : Event) (s' : State), (∀ m, m ≠ i → m ≠ j → s.phase m = .idle) →
          (e.session = i ∨ e.session = j) → Fires (step U env file) s e s' →
          ∀ m, m ≠ i → m ≠ j → s'.phase m = .idle := by
        intro s e s' h he hs m hmi hmj
        refine (phase_of_step hs ?_).trans (h m hmi hmj)
        rcases he with he | he
        · exact he ▸ hmi
        · exact he ▸ hmj
      exact hrun.invariant_of (fun _ _ _ => rfl) hkeep hpair
    -- a session that has committed is neither of the two, and the others have not started
    have hnil : s.imports = [] := by
      refine List.eq_nil_iff_forall_not_mem.2 fun c hc => ?_
      have hcommitted := (hinv.1.kept c hc).phase
      obtain ⟨-, w, -, -, -, -, hphase, -⟩ := hi
      obtain ⟨-, w', -, -, -, -, hphase', -⟩ := hj
      by_cases hci : c.session = i
      · cases (hci ▸ hcommitted).symm.trans hphase
      · by_cases hcj : c.session = j
        · cases (hcj ▸ hcommitted).symm.trans hphase'
        · cases hcommitted.symm.trans (hothers c.session hci hcj)
    exact firstShared_of_circle hinv.1 hinv.2 hnil hi hj heq

/-- A statement of two rows. -/
def demoRows (ids : List String) : List UInt8 :=
  Text.encodeUtf8 ("Date,Amount,Details,Id\n" ++
    String.join (ids.map fun x => "2026-01-02,5,?," ++ x ++ "\n"))

theorem takes_demo : takes demoUnicode demoEnv Db.empty (demoRows ["A", "B"]) = ["A", "B"] ∧
    takes demoUnicode demoEnv Db.empty (demoRows ["B", "A"]) = ["B", "A"] := by
  decide +kernel

/-- Two statements with the same ids in the same order. -/
theorem no_circle_same_order :
    firstShared (takes demoUnicode demoEnv Db.empty (demoRows ["A", "B"]))
      (takes demoUnicode demoEnv Db.empty (demoRows ["A", "B"])) = some "A" ∧
    ∀ tr s, Run (Fires (step demoUnicode demoEnv fun _ => demoRows ["A", "B"]))
      (State.init Db.empty) tr s → Pair 0 1 tr → ¬ (Waits demoEnv s 0 1 ∧ Waits demoEnv s 1 0) := by
  refine ⟨?_, (no_circle_iff demoUnicode demoEnv (fun _ => demoRows ["A", "B"]) Db.empty
    (by decide)).2 rfl⟩
  rw [takes_demo.1]
  decide

/-- And in opposite order: each import waits for the id the other has inserted. -/
theorem circle_opposite_order : ∃ tr s,
    Run (Fires (step demoUnicode demoEnv fun i => demoRows (if i = 0 then ["A", "B"] else ["B", "A"])))
      (State.init Db.empty) tr s ∧ Pair 0 1 tr ∧ Waits demoEnv s 0 1 ∧ Waits demoEnv s 1 0 := by
  refine circle_reachable (by decide) ?_
  rw [if_pos rfl, if_neg (by decide), takes_demo.1, takes_demo.2]
  decide

end ReckonFlow.ImportSession
