import ReckonFlow.Lib.PyPath

/-! Resolved paths: what `resolve` returns has no links left, is read back from its text, and
resolves to itself from wherever a process stands. -/

namespace PyPath

open PyText

/-! ## Paths and their text -/

/-- A component that `Path` keeps. -/
structure IsPart (s : PyStr) : Prop where
  ne_nil : s ≠ []
  ne_dot : s ≠ py "."
  no_slash : slash ∉ s

def Path.Clean (p : Path) : Prop := ∀ part ∈ p.parts, IsPart part

theorem slash_not_mem_split {s part : PyStr} (h : part ∈ split s) : slash ∉ part := by
  induction s generalizing part with
  | nil =>
    obtain rfl := List.mem_singleton.1 h
    exact List.not_mem_nil
  | cons c s ih =>
    rw [split] at h
    split_ifs at h with hc
    · rcases List.mem_cons.1 h with rfl | h
      · exact List.not_mem_nil
      · exact ih h
    · cases hsplit : split s with
      | nil => rw [hsplit] at h; cases h
      | cons first rest =>
        rw [hsplit, List.modifyHead_cons] at h
        rcases List.mem_cons.1 h with rfl | h
        · refine List.not_mem_cons_of_ne_of_not_mem (Ne.symm hc) (ih ?_)
          rw [hsplit]
          exact List.mem_cons_self
        · refine ih ?_
          rw [hsplit]
          exact List.mem_cons_of_mem _ h

theorem parse_clean (s : PyStr) : (Path.parse s).Clean := by
  intro part hpart
  obtain ⟨hmem, hkept⟩ := List.mem_filter.1 hpart
  obtain ⟨hnil, hdot⟩ := of_decide_eq_true hkept
  exact ⟨hnil, hdot, slash_not_mem_split hmem⟩

/-- `str` of an absolute path. -/
def render (path : List PyStr) : PyStr := if path = [] then [slash] else path.flatMap (slash :: ·)

theorem split_append_slash {part s : PyStr} (h : slash ∉ part) :
    split (part ++ slash :: s) = part :: split s := by
  induction part with
  | nil => exact if_pos rfl
  | cons c part ih =>
    obtain ⟨hc, hpart⟩ := List.ne_and_not_mem_of_not_mem_cons h
    rw [List.cons_append, split, if_neg hc.symm, ih hpart]
    rfl

theorem split_parts {part : PyStr} {path : List PyStr} (hpart : slash ∉ part) (hpath : ∀ p ∈ path, slash ∉ p) :
    split (part ++ path.flatMap (slash :: ·)) = part :: path := by
  induction path generalizing part with
  | nil => rw [List.flatMap_nil, List.append_nil, split_of_not_mem hpart]
  | cons next path ih =>
    rw [List.flatMap_cons, List.cons_append, split_append_slash hpart,
      ih (hpath next List.mem_cons_self) fun p hp => hpath p (List.mem_cons_of_mem _ hp)]

/-- An absolute path is read back from its text. -/
theorem parse_render {path : List PyStr} (h : ∀ part ∈ path, IsPart part) :
    Path.parse (render path) = ⟨true, path⟩ := by
  cases path with
  | nil => rfl
  | cons first path =>
    have hsplit : split (render (first :: path)) = [] :: first :: path := by
      rw [render, if_neg (List.cons_ne_nil _ _), List.flatMap_cons, List.cons_append, split, if_pos rfl]
      rw [split_parts (h first List.mem_cons_self).no_slash fun p hp => (h p (List.mem_cons_of_mem _ hp)).no_slash]
    have hkeep : (first :: path).filter (fun p => p ≠ [] ∧ p ≠ py ".") = first :: path :=
      List.filter_eq_self.2 fun p hp => decide_eq_true ⟨(h p hp).ne_nil, (h p hp).ne_dot⟩
    unfold Path.parse
    rw [hsplit, List.filter_cons_of_neg (by simp), hkeep]
    rfl

/-! ## Paths without links -/

variable {fs fs' : FileSystem} {follow : Follow} {path rest : List PyStr} {name : PyStr}

/-- Every directory on the way is one, and the end is no link. -/
inductive Real (fs : FileSystem) : List PyStr → Prop
  | root : Real fs []
  | child {path : List PyStr} {name : PyStr} (h : Real fs path) (hpart : IsPart name) (hdots : name ≠ py "..")
      (hlink : fs.readlink (path ++ [name]) = none) : Real fs (path ++ [name])

theorem Real.last (h : Real fs (path ++ [name])) :
    Real fs path ∧ IsPart name ∧ name ≠ py ".." ∧ fs.readlink (path ++ [name]) = none := by
  generalize heq : path ++ [name] = whole at h
  cases h with
  | root => exact absurd heq (by simp)
  | child h hpart hdots hlink =>
    obtain ⟨rfl, hlast⟩ := List.append_inj' heq rfl
    obtain rfl := List.singleton_injective hlast
    exact ⟨h, hpart, hdots, hlink⟩

theorem Real.of_append (h : Real fs (path ++ rest)) : Real fs path := by
  induction rest using List.reverseRecOn with
  | nil => rwa [List.append_nil] at h
  | append_singleton rest name ih =>
    rw [← List.append_assoc] at h
    exact ih h.last.1

theorem Real.dropLast (h : Real fs path) : Real fs path.dropLast := by
  cases h with
  | root => exact .root
  | child h => rwa [List.dropLast_concat]

theorem Real.parts (h : Real fs path) : ∀ part ∈ path, IsPart part := by
  induction h with
  | root => simp
  | child h hpart hdots hlink ih =>
    intro part hmem
    rcases List.mem_append.1 hmem with hmem | hmem
    · exact ih part hmem
    · rw [List.mem_singleton.1 hmem]
      exact hpart

/-- It does not matter where the process stands. -/
theorem Real.congr (h : Real fs path) (hlinks : fs'.links = fs.links) : Real fs' path := by
  induction h with
  | root => exact .root
  | child h hpart hdots hlink ih =>
    refine .child ih hpart hdots ?_
    rw [FileSystem.readlink, hlinks]
    exact hlink

/-- The links point to what `Path` made of a text. -/
def FileSystem.CleanLinks (fs : FileSystem) : Prop := ∀ link ∈ fs.links, link.2.Clean

/-- What is followed without a loop ends at a path without links. -/
def Follow.Sound (fs : FileSystem) (follow : Follow) : Prop :=
  ∀ seen path rest, Real fs path → (∀ part ∈ rest, IsPart part) → (follow seen path rest).2 = true →
    Real fs (follow seen path rest).1

theorem walkName_real (hlinks : fs.CleanLinks) (hfollow : follow.Sound fs) {seen : List (List PyStr)}
    (h : Real fs path) (hname : IsPart name) (hok : (walkName fs follow seen path name).2 = true) :
    Real fs (walkName fs follow seen path name).1 := by
  unfold walkName at hok ⊢
  by_cases hdots : name = py ".."
  · rw [if_pos hdots]
    exact h.dropLast
  rw [if_neg hdots] at hok ⊢
  cases hlink : fs.readlink (path ++ [name]) with
  | none => exact h.child hname hdots hlink
  | some target =>
    rw [hlink] at hok
    dsimp only at hok ⊢
    have htarget : target.Clean := hlinks _ (Dict.mem_of_get hlink)
    by_cases hseen : path ++ [name] ∈ seen
    · rw [if_pos hseen] at hok
      cases hok
    · rw [if_neg hseen] at hok ⊢
      refine hfollow _ _ _ ?_ htarget hok
      split_ifs
      · exact .root
      · exact h

theorem walk_sound (hlinks : fs.CleanLinks) (hfollow : follow.Sound fs) : Follow.Sound fs (walk fs follow) := by
  intro seen path rest
  induction rest generalizing path with
  | nil => exact fun h _ _ => h
  | cons name rest ih =>
    intro h hrest hok
    have hname := hrest name List.mem_cons_self
    rw [walk] at hok ⊢
    by_cases hreached : (walkName fs follow seen path name).2
    · simp only [hreached, if_true] at hok ⊢
      exact ih _ (walkName_real hlinks hfollow h hname hreached)
        (fun part hpart => hrest part (List.mem_cons_of_mem _ hpart)) hok
    · simp only [hreached] at hok
      cases hok

theorem joinRealpath_sound (hlinks : fs.CleanLinks) (fuel : ℕ) : (joinRealpath fs fuel).Sound fs := by
  induction fuel with
  | zero =>
    refine walk_sound hlinks ?_
    rintro seen path rest - - ⟨⟩
  | succ fuel ih => exact walk_sound hlinks ih

/-- `resolve` returns a path without links. -/
theorem resolve_real {p : Path} (hlinks : fs.CleanLinks) (hcwd : Real fs fs.cwd) (hp : p.Clean)
    (h : resolve fs p = some path) : Real fs path := by
  unfold resolve at h
  obtain ⟨hok, rfl⟩ := Option.ite_none_right_eq_some.1 h |>.imp_right Option.some.inj
  refine joinRealpath_sound hlinks _ [] _ _ ?_ hp hok
  split_ifs
  · exact .root
  · exact hcwd

theorem walk_real {seen : List (List PyStr)} (h : Real fs (path ++ rest)) :
    walk fs follow seen path rest = (path ++ rest, true) := by
  induction rest generalizing path with
  | nil => rw [List.append_nil]; rfl
  | cons name rest ih =>
    have happend : path ++ name :: rest = (path ++ [name]) ++ rest := by simp
    rw [happend] at h ⊢
    obtain ⟨-, -, hdots, hlink⟩ := h.of_append.last
    have hstep : walkName fs follow seen path name = (path ++ [name], true) := by
      rw [walkName, if_neg hdots, hlink]
    rw [walk, hstep]
    exact ih h

/-- A path without links resolves to itself. -/
theorem resolve_of_real (h : Real fs path) : resolve fs ⟨true, path⟩ = some path := by
  obtain ⟨follow, hfollow⟩ : ∃ follow, joinRealpath fs fs.links.length = walk fs follow := joinRealpath_eq _
  have hwalk : walk fs follow [] [] path = (path, true) := walk_real h
  simp only [resolve, hfollow, if_true, hwalk]

end PyPath
