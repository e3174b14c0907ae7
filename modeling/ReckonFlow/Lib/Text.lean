import Mathlib

/-! Text and bytes as a Python program sees them: UTF-8 with errors replaced,
Latin-1, and insertion-ordered dictionaries as association lists. -/

namespace Text

/-- Continuation bytes a lead byte asks for, and the range of the first of them. -/
def lead (b : UInt8) : Option (ℕ × UInt8 × UInt8) :=
  if 0xC2 ≤ b ∧ b ≤ 0xDF then some (1, 0x80, 0xBF)
  else if b = 0xE0 then some (2, 0xA0, 0xBF)
  else if b = 0xED then some (2, 0x80, 0x9F)
  else if 0xE1 ≤ b ∧ b ≤ 0xEF then some (2, 0x80, 0xBF)
  else if b = 0xF0 then some (3, 0x90, 0xBF)
  else if b = 0xF4 then some (3, 0x80, 0x8F)
  else if 0xF1 ≤ b ∧ b ≤ 0xF3 then some (3, 0x80, 0xBF)
  else none

/-- The longest run of at most `n` continuation bytes, the first one in `lo..hi`. -/
def continuation : ℕ → UInt8 → UInt8 → List UInt8 → List UInt8
  | n + 1, lo, hi, b :: bs =>
      if lo ≤ b ∧ b ≤ hi then b :: continuation n 0x80 0xBF bs else []
  | _, _, _, _ => []

def scalar (b : UInt8) (tail : List UInt8) : Char :=
  Char.ofNat (tail.foldl (fun acc c => acc * 64 + c.toNat % 64) (b.toNat % 2 ^ (6 - tail.length)))

def decodeChars : ℕ → List UInt8 → List Char
  | n + 1, b :: bs =>
      if b < 0x80 then Char.ofNat b.toNat :: decodeChars n bs
      else match lead b with
        | none => '\uFFFD' :: decodeChars n bs
        | some (k, lo, hi) =>
            let tail := continuation k lo hi bs
            -- a sequence cut short is replaced as one character
            (if tail.length = k then scalar b tail else '\uFFFD') ::
              decodeChars n (bs.drop tail.length)
  | _, _ => []

/-- `bytes.decode("utf-8", errors="replace")`. -/
def decodeUtf8 (bytes : List UInt8) : String := String.ofList (decodeChars bytes.length bytes)

/-- `str.encode("utf-8")`. -/
def encodeUtf8 (s : String) : List UInt8 := s.toList.flatMap String.utf8EncodeChar

example : decodeUtf8 (encodeUtf8 "aé€😀") = "aé€😀" := by decide +kernel
example : decodeUtf8 [0x61, 0xE2, 0x82, 0x62, 0xFF] = "a\uFFFDb\uFFFD" := by decide +kernel

/-- Characters `str.encode("latin-1")` accepts. -/
def IsLatin1 (s : String) : Prop := ∀ c ∈ s.toList, c.toNat < 256

instance (s : String) : Decidable (IsLatin1 s) :=
  decidable_of_iff (s.toList.all fun c => c.toNat < 256) (by simp [IsLatin1])

/-- ASCII lower case, the case folding of header names. -/
def lowerAscii (s : String) : String := String.ofList (s.toList.map Char.toLower)

theorem toLower_lt {c : Char} (h : c.toNat < 256) : c.toLower.toNat < 256 := by
  unfold Char.toLower
  split
  · rename_i hc
    have : c.val.toNat ≤ 'Z'.val.toNat := by simpa using UInt32.le_iff_toNat_le.1 hc.2
    simp only [Char.toNat] at h ⊢
    simp [UInt32.toNat_add] at this ⊢
    omega
  · exact h

theorem IsLatin1.lower {s : String} (h : IsLatin1 s) : IsLatin1 (lowerAscii s) := by
  intro c hc
  simp only [lowerAscii, String.toList_ofList, List.mem_map] at hc
  obtain ⟨d, hd, rfl⟩ := hc
  exact toLower_lt (h d hd)

/-- The characters `str.strip()` removes. -/
def isSpace (c : Char) : Bool :=
  let n := c.toNat
  (9 ≤ n && n ≤ 13) || (28 ≤ n && n ≤ 32) || n = 0x85 || n = 0xA0 || n = 0x1680 ||
    (0x2000 ≤ n && n ≤ 0x200A) || n = 0x2028 || n = 0x2029 || n = 0x202F || n = 0x205F || n = 0x3000

/-- `str.strip()`. -/
def strip (s : String) : String :=
  String.ofList (((s.toList.dropWhile isSpace).reverse.dropWhile isSpace).reverse)

end Text

namespace Dict

variable {κ α : Type*} [DecidableEq κ]

/-- `d.get(k)`. -/
def get (d : List (κ × α)) (k : κ) : Option α := (d.find? (·.1 = k)).map (·.2)

/-- `d[k] = v`: a key already there keeps its place. -/
def set (d : List (κ × α)) (k : κ) (v : α) : List (κ × α) :=
  match d with
  | [] => [(k, v)]
  | (k', v') :: d => if k' = k then (k, v) :: d else (k', v') :: set d k v

/-- `dict(pairs)`. -/
def ofPairs (pairs : List (κ × α)) : List (κ × α) := pairs.foldl (fun d p => set d p.1 p.2) []

theorem mem_set {d : List (κ × α)} {k : κ} {v : α} {p : κ × α} (h : p ∈ set d k v) :
    p = (k, v) ∨ p ∈ d := by
  induction d with
  | nil => exact .inl (List.mem_singleton.1 h)
  | cons q d ih =>
    unfold set at h
    split at h
    · rcases List.mem_cons.1 h with rfl | h
      · exact .inl rfl
      · exact .inr (List.mem_cons_of_mem _ h)
    · rcases List.mem_cons.1 h with rfl | h
      · exact .inr (List.mem_cons_self ..)
      · exact (ih h).imp id (List.mem_cons_of_mem _)

theorem mem_ofPairs {pairs : List (κ × α)} {p : κ × α} (h : p ∈ ofPairs pairs) : p ∈ pairs := by
  suffices hs : ∀ acc, p ∈ pairs.foldl (fun d q => set d q.1 q.2) acc → p ∈ acc ∨ p ∈ pairs by
    simpa using hs [] h
  clear h
  induction pairs with
  | nil => exact fun acc h => .inl h
  | cons q pairs ih =>
    intro acc h
    rcases ih _ h with h | h
    · exact (mem_set h).symm.imp id fun e => by simp [e]
    · exact .inr (List.mem_cons_of_mem _ h)

def keys (d : List (κ × α)) : List κ := d.map (·.1)

theorem keys_set (d : List (κ × α)) (k : κ) (v : α) :
    keys (set d k v) = if k ∈ keys d then keys d else keys d ++ [k] := by
  unfold keys
  induction d with
  | nil => rfl
  | cons p d ih =>
    unfold set
    by_cases h : p.1 = k
    · simp [h]
    · have h' : ¬ k = p.1 := fun e => h e.symm
      simp only [h, h', if_false, List.map_cons, List.mem_cons, false_or, ih]
      split_ifs <;> rfl

theorem mem_keys_set {d : List (κ × α)} {k j : κ} {v : α} :
    j ∈ keys (set d k v) ↔ j ∈ keys d ∨ j = k := by
  rw [keys_set]
  split_ifs with h
  · exact ⟨.inl, fun hj => hj.elim id fun e => e ▸ h⟩
  · rw [List.mem_append, List.mem_singleton]

theorem nodup_keys_set {d : List (κ × α)} (k : κ) (v : α) (h : (keys d).Nodup) :
    (keys (set d k v)).Nodup := by
  rw [keys_set]
  split_ifs with hk
  · exact h
  · exact h.append (List.nodup_singleton k) (by simpa using hk)

theorem mem_keys_foldl_set {γ : Type*} (g : List (κ × α) → κ × γ → α) (l : List (κ × γ)) {j : κ} :
    ∀ d, j ∈ keys (l.foldl (fun d c => set d c.1 (g d c)) d) ↔ j ∈ keys d ∨ j ∈ l.map (·.1) := by
  induction l with
  | nil => simp
  | cons c l ih =>
    intro d
    rw [List.foldl_cons, ih, mem_keys_set, List.map_cons, List.mem_cons, or_assoc]

theorem nodup_keys_foldl_set {γ : Type*} (g : List (κ × α) → κ × γ → α) (l : List (κ × γ)) :
    ∀ d, (keys d).Nodup → (keys (l.foldl (fun d c => set d c.1 (g d c)) d)).Nodup := by
  induction l with
  | nil => exact fun d h => h
  | cons c l ih => exact fun d h => ih _ (nodup_keys_set _ _ h)

/-- New keys are appended in order. -/
theorem keys_foldl_set_new {γ : Type*} (g : List (κ × α) → κ × γ → α) (l : List (κ × γ)) :
    ∀ d, (keys d ++ l.map (·.1)).Nodup →
      keys (l.foldl (fun d c => set d c.1 (g d c)) d) = keys d ++ l.map (·.1) := by
  induction l with
  | nil => simp
  | cons c l ih =>
    intro d h
    rw [List.map_cons] at h
    have hc : c.1 ∉ keys d := fun hmem =>
      (List.nodup_append.1 h).2.2 _ hmem _ (List.mem_cons_self ..) rfl
    have hkeys : keys (set d c.1 (g d c)) = keys d ++ [c.1] := by rw [keys_set, if_neg hc]
    rw [List.foldl_cons, ih, hkeys, List.map_cons, List.append_assoc, List.singleton_append]
    rw [hkeys, List.append_assoc, List.singleton_append]
    exact h

/-- Keys that are there keep their places. -/
theorem keys_foldl_set_old {γ : Type*} (g : List (κ × α) → κ × γ → α) (l : List (κ × γ)) :
    ∀ d, (∀ c ∈ l, c.1 ∈ keys d) → keys (l.foldl (fun d c => set d c.1 (g d c)) d) = keys d := by
  induction l with
  | nil => exact fun _ _ => rfl
  | cons c l ih =>
    intro d h
    obtain ⟨hc, hl⟩ := List.forall_mem_cons.1 h
    have hkeys : keys (set d c.1 (g d c)) = keys d := by rw [keys_set, if_pos hc]
    rw [List.foldl_cons, ih _ (hkeys.symm ▸ hl), hkeys]

theorem mem_of_get {d : List (κ × α)} {k : κ} {v : α} (h : get d k = some v) : (k, v) ∈ d := by
  obtain ⟨p, hp, rfl⟩ := Option.map_eq_some_iff.1 h
  have hk : p.1 = k := by simpa using List.find?_some hp
  exact hk ▸ List.mem_of_find?_eq_some hp

theorem get_set (d : List (κ × α)) (k j : κ) (v : α) :
    get (set d k v) j = if j = k then some v else get d j := by
  unfold get
  induction d with
  | nil =>
    by_cases h : j = k
    · simp [set, h]
    · simp [set, h, Ne.symm h]
  | cons p d ih =>
    unfold set
    by_cases hp : p.1 = k
    · by_cases h : j = k
      · simp [hp, h]
      · simp [hp, h, Ne.symm h]
    · by_cases hj : p.1 = j
      · simp [hj ▸ hp, hj]
      · simpa [hp, hj] using ih

theorem set_of_new {d : List (κ × α)} {k : κ} (v : α) (hk : k ∉ keys d) :
    set d k v = d ++ [(k, v)] := by
  induction d with
  | nil => rfl
  | cons p d ih =>
    simp only [keys, List.map_cons, List.mem_cons, not_or] at hk
    simp [set, Ne.symm hk.1, ih hk.2]

/-- Distinct keys make the dictionary of the pairs the list itself. -/
theorem ofPairs_of_nodup {pairs : List (κ × α)} (h : (keys pairs).Nodup) :
    ofPairs pairs = pairs := by
  suffices hs : ∀ acc, (keys (acc ++ pairs)).Nodup →
      pairs.foldl (fun d p => set d p.1 p.2) acc = acc ++ pairs by
    simpa [ofPairs] using hs [] h
  clear h
  induction pairs with
  | nil => simp
  | cons p pairs ih =>
    intro acc h
    have hp : p.1 ∉ keys acc := by
      simp only [keys, List.map_append, List.map_cons, List.nodup_append] at h
      exact fun hp => h.2.2 _ hp _ (List.mem_cons_self ..) rfl
    rw [List.foldl_cons, set_of_new p.2 hp, ih _ (by simpa using h)]
    simp

theorem get_of_mem {d : List (κ × α)} (h : (keys d).Nodup) {k : κ} {v : α} (hm : (k, v) ∈ d) :
    get d k = some v := by
  unfold get
  cases hf : d.find? (·.1 = k) with
  | none => simpa using List.find?_eq_none.1 hf _ hm
  | some q =>
    have hq : q.1 = k := by simpa using List.find?_some hf
    obtain rfl : q = (k, v) := List.inj_on_of_nodup_map h (List.mem_of_find?_eq_some hf) hm hq
    rfl

theorem get_foldl_set (pairs : List (κ × α)) (k : κ) : ∀ d : List (κ × α),
    get (pairs.foldl (fun d p => set d p.1 p.2) d) k =
      if k ∈ keys pairs then get (ofPairs pairs) k else get d k := by
  induction pairs with
  | nil => exact fun _ => rfl
  | cons p pairs ih =>
    intro d
    have hcons : get (ofPairs (p :: pairs)) k =
        if k ∈ keys pairs then get (ofPairs pairs) k else get (set [] p.1 p.2) k := ih (set [] p.1 p.2)
    have hmem : k ∈ keys (p :: pairs) ↔ k = p.1 ∨ k ∈ keys pairs := List.mem_cons
    rw [List.foldl_cons, ih, hcons]
    by_cases hk : k ∈ keys pairs
    · rw [if_pos hk, if_pos hk, if_pos (hmem.2 (.inr hk))]
    · rw [if_neg hk, if_neg hk, get_set, get_set]
      by_cases hp : k = p.1
      · rw [if_pos hp, if_pos hp, if_pos (hmem.2 (.inl hp))]
      · rw [if_neg hp, if_neg hp, if_neg fun h => (hmem.1 h).elim hp hk]

/-- Of pairs with one key the last one counts. -/
theorem mem_ofPairs_cons {p q : κ × α} {pairs : List (κ × α)} :
    q ∈ ofPairs (p :: pairs) ↔ (q = p ∧ p.1 ∉ keys pairs) ∨ q ∈ ofPairs pairs := by
  have hget : ∀ pairs : List (κ × α), q ∈ ofPairs pairs ↔ get (ofPairs pairs) q.1 = some q.2 := by
    intro pairs
    have hnodup : (keys (ofPairs pairs)).Nodup :=
      nodup_keys_foldl_set (fun _ p => p.2) pairs [] List.nodup_nil
    exact ⟨fun h => get_of_mem hnodup h, fun h => mem_of_get h⟩
  have hcons : get (ofPairs (p :: pairs)) q.1 = if q.1 ∈ keys pairs then get (ofPairs pairs) q.1
      else get (set [] p.1 p.2) q.1 := get_foldl_set pairs q.1 (set [] p.1 p.2)
  rw [hget, hget, hcons]
  by_cases hq : q.1 ∈ keys pairs
  · rw [if_pos hq]
    exact (or_iff_right fun h => h.2 (h.1 ▸ hq)).symm
  · have hnone : get (ofPairs pairs) q.1 = none := by
      have h := get_foldl_set pairs q.1 ([] : List (κ × α))
      rw [if_neg hq] at h
      exact h
    rw [if_neg hq, hnone, get_set]
    constructor
    · intro h
      split_ifs at h with heq
      · have hqp : q = p := Prod.ext heq (Option.some.inj h).symm
        exact .inl ⟨hqp, hqp ▸ hq⟩
      · cases h
    · rintro (⟨rfl, -⟩ | h)
      · exact if_pos rfl
      · cases h

end Dict
