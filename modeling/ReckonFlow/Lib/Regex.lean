import Mathlib

/-! Regular expressions as a backtracking matcher runs them: alternatives in order, repetition
greedy, all ways to match listed first to last. A match is described by the text it consumes;
the rules below find the first one without running the matcher. -/

namespace Regex

variable {α : Type*}

/-- A place in a text: what lies before it, nearest first, and what follows. -/
structure Pos (α : Type*) where
  before : List α
  rest : List α

inductive Pattern (α : Type*) where
  | empty
  | one (p : α → Bool)
  | seq (r s : Pattern α)
  | alt (r s : Pattern α)
  | star (r : Pattern α)
  /-- between an element of `word` and none -/
  | boundary (word : α → Bool)

namespace Pattern

/-- `r?` -/
def opt (r : Pattern α) : Pattern α := alt r empty

/-- `r{0,n}` -/
def upTo : ℕ → Pattern α → Pattern α
  | 0, _ => empty
  | n + 1, r => opt (seq r (upTo n r))

/-- `r{n}` -/
def times : ℕ → Pattern α → Pattern α
  | 0, _ => empty
  | n + 1, r => seq r (times n r)

/-- `r{lo,hi}` -/
def between (lo hi : ℕ) (r : Pattern α) : Pattern α := seq (times lo r) (upTo (hi - lo) r)

/-- `r+` -/
def plus (r : Pattern α) : Pattern α := seq r (star r)

end Pattern

open Pattern

/-- At most `n` rounds, as many as possible first. -/
def rounds (f : Pos α → List (Pos α)) : ℕ → Pos α → List (Pos α)
  | 0, x => [x]
  | n + 1, x => (f x).flatMap (rounds f n) ++ [x]

/-- Where the matches at a place end, in the order of backtracking. A round of a repetition
consumes something here, so there are no more rounds than elements. -/
def run : Pattern α → Pos α → List (Pos α)
  | .empty, x => [x]
  | .one p, x => match x.rest with
      | c :: cs => if p c then [⟨c :: x.before, cs⟩] else []
      | [] => []
  | .seq r s, x => (run r x).flatMap (run s)
  | .alt r s, x => run r x ++ run s x
  | .star r, x => rounds (run r) x.rest.length x
  | .boundary word, x => if x.before.head?.any word = x.rest.head?.any word then [] else [x]

section

variable (f : Pos α → List (Pos α)) (r s : Pattern α) (p word : α → Bool) (x : Pos α)

theorem rounds_succ (n : ℕ) : rounds f (n + 1) x = (f x).flatMap (rounds f n) ++ [x] := rfl

theorem run_one_nil (b : List α) : run (.one p) ⟨b, []⟩ = [] := rfl

theorem run_one_cons (b : List α) (c : α) (cs : List α) :
    run (.one p) ⟨b, c :: cs⟩ = if p c then [⟨c :: b, cs⟩] else [] := rfl

theorem run_seq : run (.seq r s) x = (run r x).flatMap (run s) := rfl

theorem run_alt : run (.alt r s) x = run r x ++ run s x := rfl

theorem run_star : run (.star r) x = rounds (run r) x.rest.length x := rfl

theorem run_boundary :
    run (.boundary word) x = if x.before.head?.any word = x.rest.head?.any word then [] else [x] := rfl

end

/-- The text between two places. -/
def span (x y : Pos α) : List α := x.rest.take (x.rest.length - y.rest.length)

/-! ## The language -/

def Matches : Pattern α → List α → Prop
  | .empty, t => t = []
  | .one p, t => ∃ c, t = [c] ∧ p c = true
  | .seq r s, t => ∃ u v, t = u ++ v ∧ Matches r u ∧ Matches s v
  | .alt r s, t => Matches r t ∨ Matches s t
  | .star r, t => ∃ ts : List (List α), t = ts.flatten ∧ ∀ u ∈ ts, Matches r u
  | .boundary _, t => t = []

/-- `y` lies behind `x` by the text `t`. -/
def Consumed (x y : Pos α) (t : List α) : Prop := x.rest = t ++ y.rest ∧ y.before = t.reverse ++ x.before

theorem Consumed.refl (x : Pos α) : Consumed x x [] := ⟨rfl, rfl⟩

theorem Consumed.trans {x y z : Pos α} {t u : List α} (h : Consumed x y t) (h' : Consumed y z u) :
    Consumed x z (t ++ u) := by
  refine ⟨?_, ?_⟩
  · rw [h.1, h'.1, List.append_assoc]
  · rw [h'.2, h.2, List.reverse_append, List.append_assoc]

theorem Consumed.span_eq {x y : Pos α} {t : List α} (h : Consumed x y t) : span x y = t := by
  unfold span
  rw [h.1, List.length_append, Nat.add_sub_cancel, List.take_left]

/-- A match consumes text of the language. -/
theorem matches_of_run {r : Pattern α} : ∀ {x y : Pos α}, y ∈ run r x →
    ∃ t, Consumed x y t ∧ Matches r t := by
  induction r with
  | empty =>
    intro x y h
    obtain rfl := List.mem_singleton.1 h
    exact ⟨[], .refl _, rfl⟩
  | one p =>
    rintro ⟨before, rest⟩ y h
    cases rest with
    | nil =>
      rw [run_one_nil] at h
      cases h
    | cons c cs =>
      rw [run_one_cons] at h
      split_ifs at h with hc
      · obtain rfl := List.mem_singleton.1 h
        exact ⟨[c], ⟨rfl, rfl⟩, c, rfl, hc⟩
      · cases h
  | seq r s ihr ihs =>
    intro x y h
    obtain ⟨z, hz, hy⟩ := List.mem_flatMap.1 h
    obtain ⟨t, hxz, ht⟩ := ihr hz
    obtain ⟨u, hzy, hu⟩ := ihs hy
    exact ⟨t ++ u, hxz.trans hzy, t, u, rfl, ht, hu⟩
  | alt r s ihr ihs =>
    intro x y h
    rcases List.mem_append.1 h with h | h
    · obtain ⟨t, hxy, ht⟩ := ihr h
      exact ⟨t, hxy, .inl ht⟩
    · obtain ⟨t, hxy, ht⟩ := ihs h
      exact ⟨t, hxy, .inr ht⟩
  | star r ih =>
    intro x y h
    suffices hall : ∀ n x, y ∈ rounds (run r) n x → ∃ t, Consumed x y t ∧ Matches (.star r) t from
      hall _ x h
    intro n
    induction n with
    | zero =>
      intro x h
      obtain rfl := List.mem_singleton.1 h
      exact ⟨[], .refl _, [], rfl, by simp⟩
    | succ n ihn =>
      intro x h
      rcases List.mem_append.1 h with h | h
      · obtain ⟨z, hz, hy⟩ := List.mem_flatMap.1 h
        obtain ⟨t, hxz, ht⟩ := ih hz
        obtain ⟨_, hzy, ts, rfl, hts⟩ := ihn z hy
        exact ⟨t ++ ts.flatten, hxz.trans hzy, t :: ts, rfl, List.forall_mem_cons.2 ⟨ht, hts⟩⟩
      · obtain rfl := List.mem_singleton.1 h
        exact ⟨[], .refl _, [], rfl, by simp⟩
  | boundary word =>
    intro x y h
    rw [run_boundary] at h
    split_ifs at h
    · cases h
    · obtain rfl := List.mem_singleton.1 h
      exact ⟨[], .refl _, rfl⟩

/-! ## The first match -/

/-- The first match at `⟨b, t ++ rest⟩` consumes `t`. -/
def First (r : Pattern α) (b t rest : List α) : Prop :=
  (run r ⟨b, t ++ rest⟩).head? = some ⟨t.reverse ++ b, rest⟩

/-- There is no match. -/
def Fails (r : Pattern α) (b rest : List α) : Prop := run r ⟨b, rest⟩ = []

variable {r s : Pattern α} {b t u rest : List α} {p : α → Bool} {c : α}

theorem First.empty : First (.empty : Pattern α) b [] rest := rfl

theorem First.one (h : p c = true) : First (.one p) b [c] rest := by
  unfold First
  rw [List.singleton_append, run_one_cons, if_pos h]
  rfl

theorem Fails.one (h : ∀ c ∈ rest.head?, p c = false) : Fails (.one p) b rest := by
  unfold Fails
  cases rest with
  | nil => rfl
  | cons c cs =>
    have hc : p c = false := h c rfl
    rw [run_one_cons, hc]
    rfl

theorem head?_flatMap {β : Type*} {l : List β} {f : β → List β} {a d : β} (h : l.head? = some a)
    (h' : (f a).head? = some d) : (l.flatMap f).head? = some d := by
  obtain ⟨l', rfl⟩ := List.head?_eq_some_iff.1 h
  obtain ⟨m, hm⟩ := List.head?_eq_some_iff.1 h'
  rw [List.flatMap_cons, hm]
  rfl

theorem First.seq (h : First r b t (u ++ rest)) (h' : First s (t.reverse ++ b) u rest) :
    First (.seq r s) b (t ++ u) rest := by
  unfold First at *
  rw [List.append_assoc, List.reverse_append, List.append_assoc]
  exact head?_flatMap h h'

theorem Fails.seq_left (h : Fails r b rest) : Fails (.seq r s) b rest := by
  unfold Fails at *
  rw [run_seq, h]
  rfl

theorem First.alt_left (h : First r b t rest) : First (.alt r s) b t rest := by
  unfold First at *
  rw [run_alt, List.head?_append, h]
  rfl

theorem First.alt_right (h : Fails r b (t ++ rest)) (h' : First s b t rest) :
    First (.alt r s) b t rest := by
  unfold First Fails at *
  rw [run_alt, h]
  exact h'

theorem First.opt_some (h : First r b t rest) : First (opt r) b t rest := h.alt_left

theorem First.opt_none (h : Fails r b rest) : First (opt r) b [] rest := .alt_right h .empty

theorem First.star_none (h : Fails r b rest) : First (.star r) b [] rest := by
  unfold First Fails at *
  rw [run_star, List.nil_append]
  cases rest with
  | nil => rfl
  | cons c cs =>
    rw [List.length_cons, rounds_succ, h]
    rfl

theorem length_lt_of_run (hne : ¬ Matches r []) {x y : Pos α} (h : y ∈ run r x) :
    y.rest.length < x.rest.length := by
  obtain ⟨t, ⟨hrest, -⟩, ht⟩ := matches_of_run h
  have hpos : 0 < t.length := List.length_pos_iff.2 fun hnil => hne (hnil ▸ ht)
  rw [hrest, List.length_append]
  omega

/-- More rounds than elements change nothing. -/
theorem rounds_of_le (hne : ¬ Matches r []) {n : ℕ} : ∀ {m : ℕ} {x : Pos α}, x.rest.length ≤ n →
    n ≤ m → rounds (run r) m x = rounds (run r) n x := by
  induction n with
  | zero =>
    intro m x hlen _
    have hnone : run r x = [] := by
      rw [List.eq_nil_iff_forall_not_mem]
      intro z hz
      have := length_lt_of_run hne hz
      omega
    cases m with
    | zero => rfl
    | succ m =>
      rw [rounds_succ, hnone]
      rfl
  | succ n ih =>
    intro m x hlen hle
    obtain ⟨m, rfl⟩ : ∃ k, m = k + 1 := ⟨m - 1, by omega⟩
    rw [rounds_succ, rounds_succ]
    congr 1
    refine List.flatMap_congr fun z hz => ih ?_ (by omega)
    have := length_lt_of_run hne hz
    omega

theorem First.matches (h : First r b t rest) : Matches r t := by
  obtain ⟨u, ⟨hrest, -⟩, hu⟩ := matches_of_run (List.mem_of_mem_head? h)
  rwa [List.append_cancel_right hrest]

theorem First.star_some (hne : ¬ Matches r []) (h : First r b t (u ++ rest))
    (h' : First (.star r) (t.reverse ++ b) u rest) : First (.star r) b (t ++ u) rest := by
  have hpos : 0 < t.length := List.length_pos_iff.2 fun hnil => hne (hnil ▸ h.matches)
  unfold First at *
  rw [List.append_assoc, List.reverse_append, List.append_assoc]
  rw [run_star] at h' ⊢
  obtain ⟨n, hn⟩ : ∃ n, (t ++ (u ++ rest)).length = n + 1 := ⟨(t ++ (u ++ rest)).length - 1, by
    rw [List.length_append]
    omega⟩
  simp only [hn]
  rw [rounds_succ, List.head?_append, head?_flatMap h]
  · rfl
  · rw [rounds_of_le hne (n := (u ++ rest).length) le_rfl, h']
    rw [List.length_append] at hn
    omega

/-- Without a text to match there is no match. -/
theorem fails_of_not_matches (h : ∀ t u, rest = t ++ u → ¬ Matches r t) : Fails r b rest := by
  unfold Fails
  rw [List.eq_nil_iff_forall_not_mem]
  intro y hy
  obtain ⟨t, ⟨hrest, -⟩, ht⟩ := matches_of_run hy
  exact h t y.rest hrest ht

theorem not_fails_of_mem {y : Pos α} (h : y ∈ run r ⟨b, rest⟩) : ¬ Fails r b rest :=
  List.ne_nil_of_mem h

theorem mem_run_one (h : p c = true) (b rest : List α) : ⟨c :: b, rest⟩ ∈ run (.one p) ⟨b, c :: rest⟩ := by
  rw [run_one_cons, if_pos h]
  exact List.mem_singleton_self _

theorem mem_run_seq {x y z : Pos α} (h : y ∈ run r x) (h' : z ∈ run s y) : z ∈ run (.seq r s) x :=
  List.mem_flatMap.2 ⟨y, h, h'⟩

theorem mem_run_opt (x : Pos α) : x ∈ run (opt r) x := List.mem_append_right _ (List.mem_singleton_self x)

theorem mem_run_upTo (n : ℕ) (x : Pos α) : x ∈ run (upTo n r) x := by
  cases n with
  | zero => exact List.mem_singleton_self x
  | succ n => exact mem_run_opt x

theorem mem_run_star (x : Pos α) : x ∈ run (.star r) x := by
  rw [run_star]
  cases x.rest.length with
  | zero => exact List.mem_singleton_self x
  | succ n => exact List.mem_append_right _ (List.mem_singleton_self x)

/-! ## Runs of one class -/

theorem matches_times {n : ℕ} : Matches (times n (.one p)) t ↔ t.length = n ∧ ∀ c ∈ t, p c = true := by
  induction n generalizing t with
  | zero =>
    rw [List.length_eq_zero_iff]
    constructor
    · rintro rfl
      simp
    · exact fun h => h.1
  | succ n ih =>
    constructor
    · rintro ⟨u, v, rfl, ⟨c, rfl, hc⟩, hv⟩
      obtain ⟨hlen, hall⟩ := ih.1 hv
      exact ⟨by simp [hlen], List.forall_mem_cons.2 ⟨hc, hall⟩⟩
    · rintro ⟨hlen, hall⟩
      obtain ⟨c, cs, rfl⟩ := List.exists_cons_of_length_eq_add_one hlen
      obtain ⟨hc, hcs⟩ := List.forall_mem_cons.1 hall
      exact ⟨[c], cs, rfl, ⟨c, rfl, hc⟩, ih.2 ⟨by simpa using hlen, hcs⟩⟩

theorem matches_upTo {n : ℕ} (h : Matches (upTo n (.one p)) t) : t.length ≤ n ∧ ∀ c ∈ t, p c = true := by
  induction n generalizing t with
  | zero =>
    obtain rfl : t = [] := h
    simp
  | succ n ih =>
    rcases h with ⟨u, v, rfl, ⟨c, rfl, hc⟩, hv⟩ | rfl
    · obtain ⟨hlen, hall⟩ := ih hv
      exact ⟨by simp [hlen], List.forall_mem_cons.2 ⟨hc, hall⟩⟩
    · simp

theorem matches_between {lo hi : ℕ} (hle : lo ≤ hi) (h : Matches (between lo hi (.one p)) t) :
    lo ≤ t.length ∧ t.length ≤ hi ∧ ∀ c ∈ t, p c = true := by
  obtain ⟨u, v, rfl, hu, hv⟩ := h
  obtain ⟨hlo, hall⟩ := matches_times.1 hu
  obtain ⟨hup, hall'⟩ := matches_upTo hv
  rw [List.length_append]
  exact ⟨by omega, by omega, fun c hc => (List.mem_append.1 hc).elim (hall c) (hall' c)⟩

theorem matches_plus (h : Matches (plus (.one p)) t) : t ≠ [] ∧ ∀ c ∈ t, p c = true := by
  obtain ⟨u, v, rfl, ⟨c, rfl, hc⟩, ts, rfl, hts⟩ := h
  refine ⟨by simp, fun d hd => ?_⟩
  rcases List.mem_append.1 hd with hd | hd
  · rwa [List.mem_singleton.1 hd]
  · obtain ⟨u, hu, hd⟩ := List.mem_flatten.1 hd
    obtain ⟨e, rfl, he⟩ := hts u hu
    rwa [List.mem_singleton.1 hd]

theorem First.times (hall : ∀ c ∈ t, p c = true) : First (times t.length (.one p)) b t rest := by
  induction t generalizing b with
  | nil => exact .empty
  | cons c t ih =>
    obtain ⟨hc, ht⟩ := List.forall_mem_cons.1 hall
    exact (First.one hc).seq (ih ht)

/-- As many as there are, if they are not too many. -/
theorem First.upTo {n : ℕ} (hle : t.length ≤ n) (hall : ∀ c ∈ t, p c = true)
    (hend : t.length = n ∨ ∀ c ∈ rest.head?, p c = false) : First (upTo n (.one p)) b t rest := by
  induction n generalizing b t with
  | zero =>
    obtain rfl := List.length_eq_zero_iff.1 (Nat.le_zero.1 hle)
    exact .empty
  | succ n ih =>
    cases t with
    | nil =>
      have hnone : ∀ c ∈ rest.head?, p c = false := by
        rcases hend with hend | hend
        · cases hend
        · exact hend
      exact .opt_none (Fails.one hnone).seq_left
    | cons c t =>
      obtain ⟨hc, ht⟩ := List.forall_mem_cons.1 hall
      simp only [List.length_cons, Nat.add_le_add_iff_right, Nat.add_right_cancel_iff] at hle hend
      exact .opt_some ((First.one hc).seq (ih hle ht hend))

theorem First.between {lo hi : ℕ} (hlo : lo ≤ t.length) (hhi : t.length ≤ hi)
    (hall : ∀ c ∈ t, p c = true) (hend : t.length = hi ∨ ∀ c ∈ rest.head?, p c = false) :
    First (between lo hi (.one p)) b t rest := by
  have htake : (t.take lo).length = lo := by
    rw [List.length_take]
    omega
  have hfirst : First (Pattern.times (t.take lo).length (.one p)) b (t.take lo) (t.drop lo ++ rest) :=
    First.times fun c hc => hall c (List.mem_of_mem_take hc)
  rw [htake] at hfirst
  have hdrop : (t.drop lo).length = t.length - lo := List.length_drop ..
  have hmore : First (Pattern.upTo (hi - lo) (.one p)) ((t.take lo).reverse ++ b) (t.drop lo) rest :=
    First.upTo (by omega) (fun c hc => hall c (List.mem_of_mem_drop hc)) (hend.imp (by omega) id)
  have h := hfirst.seq hmore
  rwa [List.take_append_drop] at h

/-! ## Scanning a text -/

/-- What a scan makes of a text: elements passed over, and matches. -/
inductive Piece (α : Type*) where
  | skip (c : α)
  | token (t : List α)

/-- One match after the other, from left to right; the pattern matches no empty text. -/
def scan (r : Pattern α) : ℕ → Pos α → List (Piece α)
  | 0, _ => []
  | n + 1, x => match (run r x).head? with
      | some y => .token (span x y) :: scan r n y
      | none => match x.rest with
          | c :: cs => .skip c :: scan r n ⟨c :: x.before, cs⟩
          | [] => []

def pieces (r : Pattern α) (s : List α) : List (Piece α) := scan r (s.length + 1) ⟨[], s⟩

def Piece.token? : Piece α → Option (List α)
  | token t => some t
  | skip _ => none

def Piece.skip? : Piece α → Option α
  | token _ => none
  | skip c => some c

/-- `findall`, of a pattern that is one group. -/
def findall (r : Pattern α) (s : List α) : List (List α) := (pieces r s).filterMap Piece.token?

/-- `sub("", s)` -/
def strike (r : Pattern α) (s : List α) : List α := (pieces r s).filterMap Piece.skip?

theorem token?_map_skip (l : List α) : (l.map Piece.skip).filterMap Piece.token? = [] := by
  rw [List.filterMap_map, List.filterMap_eq_nil_iff]
  exact fun _ _ => rfl

theorem token?_map_token (ts : List (List α)) : (ts.map Piece.token).filterMap Piece.token? = ts := by
  rw [List.filterMap_map]
  exact List.filterMap_some

def searchFrom (r s : Pattern α) : ℕ → Pos α → Option (List α)
  | 0, _ => none
  | n + 1, x => match (run r x).find? fun y => (run s y).head?.isSome with
      | some y => some (span x y)
      | none => match x.rest with
          | c :: cs => searchFrom r s n ⟨c :: x.before, cs⟩
          | [] => none

/-- `search` of `(r)s`: what the group consumes in the first match. -/
def search (r s : Pattern α) (text : List α) : Option (List α) :=
  searchFrom r s (text.length + 1) ⟨[], text⟩

def fullmatch (r : Pattern α) (s : List α) : Bool := (run r ⟨[], s⟩).any (·.rest.isEmpty)

/-- The pieces a scan finds at a place. -/
inductive Scans (r : Pattern α) : List α → List α → List (Piece α) → Prop
  | done {b : List α} (h : Fails r b []) : Scans r b [] []
  | token {b t rest : List α} {ps : List (Piece α)} (h : First r b t rest)
      (hs : Scans r (t.reverse ++ b) rest ps) : Scans r b (t ++ rest) (.token t :: ps)
  | skip {b cs : List α} {c : α} {ps : List (Piece α)} (h : Fails r b (c :: cs))
      (hs : Scans r (c :: b) cs ps) : Scans r b (c :: cs) (.skip c :: ps)

theorem Scans.scan_eq (hne : ¬ Matches r []) {cs : List α} {ps : List (Piece α)} (h : Scans r b cs ps) :
    ∀ {n : ℕ}, cs.length < n → scan r n ⟨b, cs⟩ = ps := by
  induction h with
  | done h =>
    intro n hn
    obtain ⟨n, rfl⟩ : ∃ k, n = k + 1 := ⟨n - 1, by omega⟩
    unfold Fails at h
    rw [scan, h]
    rfl
  | @token b t rest ps h _ ih =>
    intro n hn
    obtain ⟨n, rfl⟩ : ∃ k, n = k + 1 := ⟨n - 1, by omega⟩
    have hpos : 0 < t.length := List.length_pos_iff.2 fun hnil => hne (hnil ▸ h.matches)
    have hspan : span ⟨b, t ++ rest⟩ ⟨t.reverse ++ b, rest⟩ = t := Consumed.span_eq ⟨rfl, rfl⟩
    unfold First at h
    rw [List.length_append] at hn
    rw [scan, h]
    dsimp only
    rw [hspan, ih (by omega)]
  | @skip b cs c ps h _ ih =>
    intro n hn
    obtain ⟨n, rfl⟩ : ∃ k, n = k + 1 := ⟨n - 1, by omega⟩
    unfold Fails at h
    rw [List.length_cons] at hn
    rw [scan, h]
    dsimp only [List.head?_nil]
    rw [ih (by omega)]

theorem Scans.pieces_eq (hne : ¬ Matches r []) {s : List α} {ps : List (Piece α)}
    (h : Scans r [] s ps) : pieces r s = ps := h.scan_eq hne (Nat.lt_succ_self _)

theorem Scans.skips {cs : List α} : ∀ {b s : List α} {ps : List (Piece α)},
    (∀ u c v, cs = u ++ c :: v → Fails r (u.reverse ++ b) (c :: v ++ s)) →
      Scans r (cs.reverse ++ b) s ps → Scans r b (cs ++ s) (cs.map .skip ++ ps) := by
  induction cs with
  | nil => exact fun _ h => h
  | cons c cs ih =>
    intro b s ps hfails h
    refine .skip (hfails [] c cs rfl) (ih (fun u d v huv => ?_) ?_)
    · have := hfails (c :: u) d v (by rw [huv]; rfl)
      rwa [List.reverse_cons, List.append_assoc] at this
    · rwa [List.reverse_cons, List.append_assoc] at h

/-- Every token is of the language, and no match starts at an element passed over. -/
theorem mem_scan {n : ℕ} : ∀ {x : Pos α}, ∀ piece ∈ scan r n x,
    (∀ t, piece = .token t → Matches r t) ∧
      ∀ c, piece = .skip c → ∃ b cs, Fails r b (c :: cs) := by
  induction n with
  | zero =>
    intro x piece h
    cases h
  | succ n ih =>
    intro x piece h
    rw [scan] at h
    cases hrun : (run r x).head? with
    | some y =>
      rw [hrun] at h
      rcases List.mem_cons.1 h with rfl | h
      · obtain ⟨t, hconsumed, ht⟩ := matches_of_run (List.mem_of_mem_head? hrun)
        refine ⟨fun u hu => ?_, fun c hc => (by cases hc)⟩
        rw [← Piece.token.inj hu, hconsumed.span_eq]
        exact ht
      · exact ih piece h
    | none =>
      rw [hrun] at h
      have hfails : run r x = [] := List.head?_eq_none_iff.1 hrun
      obtain ⟨b, rest⟩ := x
      cases rest with
      | nil => cases h
      | cons c cs =>
        rcases List.mem_cons.1 h with rfl | h
        · exact ⟨fun t ht => (by cases ht), fun d hd => ⟨b, cs, Piece.skip.inj hd ▸ hfails⟩⟩
        · exact ih piece h

theorem matches_of_findall {s : List α} (h : t ∈ findall r s) : Matches r t := by
  obtain ⟨piece, hpiece, ht⟩ := List.mem_filterMap.1 h
  cases piece with
  | token u =>
    obtain rfl : u = t := Option.some.inj ht
    exact (mem_scan _ hpiece).1 u rfl
  | skip c => cases ht

theorem matches_of_searchFrom {n : ℕ} : ∀ {x : Pos α}, searchFrom r s n x = some t → Matches r t := by
  induction n with
  | zero =>
    intro x h
    cases h
  | succ n ih =>
    intro x h
    rw [searchFrom] at h
    split at h
    · rename_i y hy
      obtain ⟨u, hconsumed, hu⟩ := matches_of_run (List.mem_of_find?_eq_some hy)
      rw [← Option.some.inj h, hconsumed.span_eq]
      exact hu
    · split at h
      · exact ih h
      · cases h

theorem matches_of_search {text : List α} (h : search r s text = some t) : Matches r t :=
  matches_of_searchFrom h

/-- Where a match starts no element is left over. -/
theorem fails_of_strike {s : List α} (h : c ∈ strike r s) : ∃ b cs, Fails r b (c :: cs) := by
  obtain ⟨piece, hpiece, hc⟩ := List.mem_filterMap.1 h
  cases piece with
  | token u => cases hc
  | skip d =>
    obtain rfl : d = c := Option.some.inj hc
    exact (mem_scan _ hpiece).2 d rfl

end Regex
