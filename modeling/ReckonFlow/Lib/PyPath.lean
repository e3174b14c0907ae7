import ReckonFlow.Lib.PyText

/-! POSIX paths as `pathlib` has them, and their resolution in a file system with symbolic links.
A file below a directory is resolved by resolving the directory. -/

namespace PyPath

open PyText

def slash : Fin 0x110000 := codePoint '/'

/-- `s.split("/")` -/
def split : PyStr → List PyStr
  | [] => [[]]
  | c :: cs => if c = slash then [] :: split cs else (split cs).modifyHead (c :: ·)

/-- A `PurePosixPath`. -/
structure Path where
  absolute : Bool
  parts : List PyStr
  deriving DecidableEq

def Path.parse (s : PyStr) : Path where
  absolute := s.head? = some slash
  parts := (split s).filter fun p => p ≠ [] ∧ p ≠ py "."

/-- The last component, if there is one. -/
def Path.name (p : Path) : PyStr := p.parts.getLast?.getD []

/-- `p / segment` -/
def Path.join (p : Path) (segment : PyStr) : Path :=
  let q := Path.parse segment
  if q.absolute then q else ⟨p.absolute, p.parts ++ q.parts⟩

/-- What can be the name of a file in a directory. -/
structure IsComponent (s : PyStr) : Prop where
  ne_nil : s ≠ []
  ne_dot : s ≠ py "."
  ne_dots : s ≠ py ".."
  no_slash : slash ∉ s
  no_nul : codePoint '\x00' ∉ s

theorem split_of_not_mem {s : PyStr} (h : slash ∉ s) : split s = [s] := by
  induction s with
  | nil => rfl
  | cons c s ih =>
    obtain ⟨hc, hs⟩ := List.ne_and_not_mem_of_not_mem_cons h
    rw [split, if_neg hc.symm, ih hs]
    rfl

theorem IsComponent.parse {s : PyStr} (h : IsComponent s) : Path.parse s = ⟨false, [s]⟩ := by
  have hhead : s.head? ≠ some slash := fun he => h.no_slash (List.mem_of_head? he)
  unfold Path.parse
  rw [split_of_not_mem h.no_slash, List.filter_cons_of_pos (by simpa using ⟨h.ne_nil, h.ne_dot⟩),
    List.filter_nil, decide_eq_false hhead]

theorem IsComponent.join {s : PyStr} (h : IsComponent s) (p : Path) :
    p.join s = ⟨p.absolute, p.parts ++ [s]⟩ := by
  unfold Path.join
  rw [h.parse]
  rfl

/-! ## Resolution -/

/-- Where the process stands, and the symbolic links, each with where it points to. -/
structure FileSystem where
  cwd : List PyStr
  links : List (List PyStr × Path)

variable (fs : FileSystem)

def FileSystem.readlink (path : List PyStr) : Option Path := Dict.get fs.links path

/-- How links are followed: from the links being resolved, the path so far and the components of the
target to the path reached, and whether no loop of links was met. -/
abbrev Follow := List (List PyStr) → List PyStr → List PyStr → List PyStr × Bool

/-- One component in the loop of `_joinrealpath`; `seen` are the links being resolved. -/
def walkName (follow : Follow) (seen : List (List PyStr)) (path : List PyStr) (name : PyStr) :
    List PyStr × Bool :=
  if name = py ".." then (path.dropLast, true)
  else match fs.readlink (path ++ [name]) with
    | none => (path ++ [name], true)
    | some target =>
        if path ++ [name] ∈ seen then (path ++ [name], false)
        else follow ((path ++ [name]) :: seen) (if target.absolute then [] else path) target.parts

/-- The loop; what is left stays as it is once a loop of links is met. -/
def walk (follow : Follow) (seen : List (List PyStr)) : List PyStr → List PyStr → List PyStr × Bool
  | path, [] => (path, true)
  | path, name :: rest =>
      let reached := walkName fs follow seen path name
      if reached.2 then walk follow seen reached.1 rest else (reached.1 ++ rest, false)

/-- `_joinrealpath`, with links followed to the depth `fuel`. -/
def joinRealpath : ℕ → Follow
  | 0 => walk fs fun _ path rest => (path ++ rest, false)
  | fuel + 1 => walk fs (joinRealpath fuel)

/-- `path.resolve()`; `none` for a loop of links. -/
def resolve (p : Path) : Option (List PyStr) :=
  let resolved := joinRealpath fs fs.links.length [] (if p.absolute then [] else fs.cwd) p.parts
  if resolved.2 then some resolved.1 else none

variable {fs} {follow follow' : Follow} {seen : List (List PyStr)}

/-- Links that are not being resolved. -/
def unseen (fs : FileSystem) (seen : List (List PyStr)) : List (List PyStr × Path) :=
  fs.links.filter fun l => l.1 ∉ seen

theorem walkName_congr (h : ∀ link target path rest, fs.readlink link = some target → link ∉ seen →
    follow (link :: seen) path rest = follow' (link :: seen) path rest) (path : List PyStr) (name : PyStr) :
    walkName fs follow seen path name = walkName fs follow' seen path name := by
  unfold walkName
  by_cases hdots : name = py ".."
  · rw [if_pos hdots, if_pos hdots]
  · rw [if_neg hdots, if_neg hdots]
    cases hlink : fs.readlink (path ++ [name]) with
    | none => rfl
    | some target =>
      dsimp only
      by_cases hseen : path ++ [name] ∈ seen
      · rw [if_pos hseen, if_pos hseen]
      · rw [if_neg hseen, if_neg hseen, h _ _ _ _ hlink hseen]

theorem walk_congr (h : ∀ link target path rest, fs.readlink link = some target → link ∉ seen →
    follow (link :: seen) path rest = follow' (link :: seen) path rest) (path rest : List PyStr) :
    walk fs follow seen path rest = walk fs follow' seen path rest := by
  induction rest generalizing path with
  | nil => rfl
  | cons name rest ih =>
    unfold walk
    simp only [walkName_congr h, ih]

theorem unseen_cons {link : List PyStr} {target : Path} (h : fs.readlink link = some target)
    (hseen : link ∉ seen) : (unseen fs (link :: seen)).length < (unseen fs seen).length := by
  have hmem : (link, target) ∈ unseen fs seen :=
    List.mem_filter.2 ⟨Dict.mem_of_get h, decide_eq_true hseen⟩
  have hsplit : unseen fs (link :: seen) = (unseen fs seen).filter fun l => l.1 ≠ link := by
    unfold unseen
    rw [List.filter_filter]
    refine List.filter_congr fun l _ => ?_
    simp only [List.mem_cons, not_or, Bool.decide_and]
  rw [hsplit]
  exact List.length_filter_lt_length_iff_exists.2 ⟨_, hmem, by simp⟩

/-- Links are never followed deeper than there are links. -/
theorem joinRealpath_fuel (fuel : ℕ) (h : (unseen fs seen).length ≤ fuel) :
    joinRealpath fs (fuel + 1) seen = joinRealpath fs fuel seen := by
  induction fuel generalizing seen with
  | zero =>
    funext path rest
    refine walk_congr (fun link target path rest hlink hseen => ?_) path rest
    have hlt := unseen_cons hlink hseen
    omega
  | succ fuel ih =>
    funext path rest
    refine walk_congr (fun link target path rest hlink hseen => ?_) path rest
    have hlt := unseen_cons hlink hseen
    rw [ih (by omega)]

/-- The fuel of `resolve` is enough. -/
theorem joinRealpath_of_le {fuel : ℕ} (h : fs.links.length ≤ fuel) :
    joinRealpath fs fuel [] = joinRealpath fs fs.links.length [] := by
  induction fuel, h using Nat.le_induction with
  | base => rfl
  | succ fuel hle ih => rw [joinRealpath_fuel fuel ((List.length_filter_le ..).trans hle), ih]

/-- Components appended to a path are walked from where the path led. -/
theorem walk_append (path rest more : List PyStr) : walk fs follow seen path (rest ++ more) =
    if (walk fs follow seen path rest).2 then walk fs follow seen (walk fs follow seen path rest).1 more
    else ((walk fs follow seen path rest).1 ++ more, false) := by
  induction rest generalizing path with
  | nil => rfl
  | cons name rest ih =>
    rw [List.cons_append, walk, walk]
    by_cases hok : (walkName fs follow seen path name).2
    · rw [if_pos hok, if_pos hok, ih]
    · rw [if_neg hok, if_neg hok, if_neg Bool.false_ne_true, List.append_assoc]

/-- A file that is no link stands where its directory does. -/
theorem walk_child {path rest root : List PyStr} {name : PyStr} (h : walk fs follow seen path rest = (root, true))
    (hname : name ≠ py "..") (hlink : fs.readlink (root ++ [name]) = none) :
    walk fs follow seen path (rest ++ [name]) = (root ++ [name], true) := by
  have hstep : walkName fs follow seen root name = (root ++ [name], true) := by
    rw [walkName, if_neg hname, hlink]
  rw [walk_append, h, if_pos rfl, walk, hstep]
  rfl

theorem joinRealpath_eq (fuel : ℕ) : ∃ follow, joinRealpath fs fuel = walk fs follow := by
  cases fuel with
  | zero => exact ⟨_, rfl⟩
  | succ fuel => exact ⟨_, rfl⟩

theorem resolve_child {p : Path} {root : List PyStr} {name : PyStr} (h : resolve fs p = some root)
    (hname : IsComponent name) (hlink : fs.readlink (root ++ [name]) = none) :
    resolve fs (p.join name) = some (root ++ [name]) := by
  obtain ⟨follow, hfollow⟩ : ∃ follow, joinRealpath fs fs.links.length = walk fs follow := joinRealpath_eq _
  rw [hname.join]
  simp only [resolve, hfollow] at h ⊢
  obtain ⟨hok, hroot⟩ := Option.ite_none_right_eq_some.1 h
  have hwalk : walk fs follow [] (if p.absolute then [] else fs.cwd) p.parts = (root, true) :=
    Prod.ext (Option.some.inj hroot) hok
  rw [walk_child hwalk hname.ne_dots hlink]
  rfl

/-- `/srv/in` points to `../data`, and a link to itself is a loop. -/
example : let fs : FileSystem := ⟨[], [([py "srv", py "in"], ⟨false, [py "..", py "data"]⟩),
      ([py "self"], ⟨true, [py "self"]⟩)]⟩
    resolve fs (Path.parse (py "/srv//in/./a")) = some [py "data", py "a"] ∧
      resolve fs (Path.parse (py "self/a")) = none := by
  decide +kernel

end PyPath
