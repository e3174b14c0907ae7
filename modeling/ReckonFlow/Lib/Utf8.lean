import ReckonFlow.Lib.Text

/-! Decoding UTF-8 with errors replaced gives back every text that was encoded. -/

namespace Text

variable {b lo hi : UInt8} {bs tail : List UInt8} {n k : ℕ}

theorem toNat_byte {v : ℕ} (h : v < 256) : (UInt8.ofNat v).toNat = v := UInt8.toNat_ofNat_of_lt' h

/-! ## Lead bytes -/

theorem lead_eq (b : UInt8) : lead b =
    if 0xC2 ≤ b.toNat ∧ b.toNat ≤ 0xDF then some (1, 0x80, 0xBF)
    else if b.toNat = 0xE0 then some (2, 0xA0, 0xBF)
    else if b.toNat = 0xED then some (2, 0x80, 0x9F)
    else if 0xE1 ≤ b.toNat ∧ b.toNat ≤ 0xEF then some (2, 0x80, 0xBF)
    else if b.toNat = 0xF0 then some (3, 0x90, 0xBF)
    else if b.toNat = 0xF4 then some (3, 0x80, 0x8F)
    else if 0xF1 ≤ b.toNat ∧ b.toNat ≤ 0xF3 then some (3, 0x80, 0xBF)
    else none := by
  simp only [lead, UInt8.le_iff_toNat_le, ← UInt8.toNat_inj]
  rfl

/-- The second byte of a sequence of three: not too short a number, and no surrogate. -/
theorem lead_three (h : 0xE0 ≤ b.toNat) (h' : b.toNat ≤ 0xEF) : ∃ lo hi : UInt8, lead b = some (2, lo, hi) ∧
    ∀ x : ℕ, 0x80 ≤ x → x ≤ 0xBF → (b.toNat = 0xE0 → 0xA0 ≤ x) → (b.toNat = 0xED → x ≤ 0x9F) →
      lo.toNat ≤ x ∧ x ≤ hi.toNat := by
  rw [lead_eq, if_neg (by omega)]
  split_ifs with h0 hd hrest
  · exact ⟨_, _, rfl, fun x _ hhi h0' _ => ⟨h0' h0, hhi⟩⟩
  · exact ⟨_, _, rfl, fun x hlo _ _ hd' => ⟨hlo, hd' hd⟩⟩
  · exact ⟨_, _, rfl, fun x hlo hhi _ _ => ⟨hlo, hhi⟩⟩
  all_goals omega

/-- The second byte of a sequence of four. -/
theorem lead_four (h : 0xF0 ≤ b.toNat) (h' : b.toNat ≤ 0xF4) : ∃ lo hi : UInt8, lead b = some (3, lo, hi) ∧
    ∀ x : ℕ, 0x80 ≤ x → x ≤ 0xBF → (b.toNat = 0xF0 → 0x90 ≤ x) → (b.toNat = 0xF4 → x ≤ 0x8F) →
      lo.toNat ≤ x ∧ x ≤ hi.toNat := by
  rw [lead_eq, if_neg (by omega), if_neg (by omega), if_neg (by omega), if_neg (by omega)]
  split_ifs with h0 h4 hrest
  · exact ⟨_, _, rfl, fun x _ hhi h0' _ => ⟨h0' h0, hhi⟩⟩
  · exact ⟨_, _, rfl, fun x hlo _ _ h4' => ⟨hlo, h4' h4⟩⟩
  · exact ⟨_, _, rfl, fun x hlo hhi _ _ => ⟨hlo, hhi⟩⟩
  · omega

/-! ## One character -/

theorem continuation_succ (h : lo.toNat ≤ b.toNat ∧ b.toNat ≤ hi.toNat) :
    continuation (n + 1) lo hi (b :: bs) = b :: continuation n 0x80 0xBF bs :=
  if_pos ⟨UInt8.le_iff_toNat_le.2 h.1, UInt8.le_iff_toNat_le.2 h.2⟩

theorem continuation_zero : continuation 0 lo hi bs = [] := by
  cases bs <;> rfl

theorem decodeChars_ascii {v : ℕ} (h : v < 0x80) :
    decodeChars (n + 1) (UInt8.ofNat v :: bs) = Char.ofNat v :: decodeChars n bs := by
  have hv := toNat_byte (show v < 256 by omega)
  have hlt : UInt8.ofNat v < 0x80 := UInt8.lt_iff_toNat_lt.2 (hv.trans_lt h)
  rw [decodeChars, if_pos hlt, hv]

theorem decodeChars_lead (hb : 0x80 ≤ b.toNat) (hlead : lead b = some (k, lo, hi))
    (htail : continuation k lo hi (tail ++ bs) = tail) (hlength : tail.length = k) :
    decodeChars (n + 1) (b :: (tail ++ bs)) = scalar b tail :: decodeChars n bs := by
  have hge : ¬ b < 0x80 := fun hlt => absurd (UInt8.lt_iff_toNat_lt.1 hlt) (by simpa using hb)
  rw [decodeChars, if_neg hge, hlead]
  dsimp only
  rw [htail, if_pos hlength, List.drop_left]

/-- The encoding of a character that takes more than one byte is read as a whole. -/
theorem decodeChars_sequence {v : ℕ} (tail : List UInt8) (hb : 0x80 ≤ b.toNat) (hlead : lead b = some (k, lo, hi))
    (htail : continuation k lo hi (tail ++ bs) = tail) (hlength : tail.length = k)
    (hvalue : tail.foldl (fun acc c => acc * 64 + c.toNat % 64) (b.toNat % 2 ^ (6 - tail.length)) = v) :
    decodeChars (n + 1) (b :: (tail ++ bs)) = Char.ofNat v :: decodeChars n bs := by
  rw [decodeChars_lead hb hlead htail hlength, scalar, hvalue]

/-- The low six bits of a number as a continuation byte. -/
def lowBits (v : ℕ) : UInt8 := UInt8.ofNat (v % 0x40 + 0x80)

theorem toNat_lowBits (v : ℕ) : (lowBits v).toNat = v % 0x40 + 0x80 := toNat_byte (by omega)

theorem continuation_lowBits (v : ℕ) :
    continuation (n + 1) 0x80 0xBF (lowBits v :: bs) = lowBits v :: continuation n 0x80 0xBF bs := by
  refine continuation_succ ?_
  rw [toNat_lowBits]
  exact ⟨by simp, by simp; omega⟩

theorem decodeChars_char (c : Char) :
    decodeChars (n + 1) (String.utf8EncodeChar c ++ bs) = c :: decodeChars n bs := by
  have hvalid : c.val.toNat < 0xD800 ∨ 0xDFFF < c.val.toNat ∧ c.val.toNat < 0x110000 := c.valid
  have hc : Char.ofNat c.val.toNat = c := Char.ofNat_toNat c
  unfold String.utf8EncodeChar
  dsimp only
  generalize c.val.toNat = v at hvalid hc ⊢
  subst hc
  split_ifs with h1 h2 h3
  · exact decodeChars_ascii (by omega)
  · have hb := toNat_byte (show v / 64 % 0x20 + 0xC0 < 256 by omega)
    have hlead : lead (UInt8.ofNat (v / 64 % 0x20 + 0xC0)) = some (1, 0x80, 0xBF) := by
      rw [lead_eq, hb, if_pos (by omega)]
    refine decodeChars_sequence [lowBits v] (by omega) hlead ?_ rfl ?_
    · exact (continuation_lowBits v).trans (by rw [continuation_zero])
    · simp only [List.foldl_cons, List.foldl_nil, List.length_singleton, hb, toNat_lowBits]
      omega
  · have hb := toNat_byte (show v / 4096 % 0x10 + 0xE0 < 256 by omega)
    obtain ⟨lo, hi, hlead, hrange⟩ := lead_three (b := UInt8.ofNat (v / 4096 % 0x10 + 0xE0)) (by omega) (by omega)
    refine decodeChars_sequence [lowBits (v / 64), lowBits v] (by omega) hlead ?_ rfl ?_
    · have hsecond := hrange (lowBits (v / 64)).toNat (by rw [toNat_lowBits]; omega)
        (by rw [toNat_lowBits]; omega) (by rw [toNat_lowBits, hb]; omega) (by rw [toNat_lowBits, hb]; omega)
      rw [List.cons_append, continuation_succ hsecond, List.cons_append, continuation_lowBits, continuation_zero]
    · simp only [List.foldl_cons, List.foldl_nil, List.length_cons, List.length_nil, hb, toNat_lowBits]
      omega
  · have hb := toNat_byte (show v / 262144 % 0x08 + 0xF0 < 256 by omega)
    obtain ⟨lo, hi, hlead, hrange⟩ := lead_four (b := UInt8.ofNat (v / 262144 % 0x08 + 0xF0)) (by omega) (by omega)
    refine decodeChars_sequence [lowBits (v / 4096), lowBits (v / 64), lowBits v] (by omega) hlead ?_ rfl ?_
    · have hsecond := hrange (lowBits (v / 4096)).toNat (by rw [toNat_lowBits]; omega)
        (by rw [toNat_lowBits]; omega) (by rw [toNat_lowBits, hb]; omega) (by rw [toNat_lowBits, hb]; omega)
      rw [List.cons_append, continuation_succ hsecond, List.cons_append, continuation_lowBits,
        List.cons_append, continuation_lowBits, continuation_zero]
    · simp only [List.foldl_cons, List.foldl_nil, List.length_cons, List.length_nil, hb, toNat_lowBits]
      omega

/-! ## Texts -/

theorem decodeChars_encoded {cs : List Char} (h : cs.length ≤ n) :
    decodeChars n (cs.flatMap String.utf8EncodeChar) = cs := by
  induction cs generalizing n with
  | nil => cases n <;> rfl
  | cons c cs ih =>
    obtain ⟨m, rfl⟩ := Nat.exists_eq_add_of_le' (Nat.lt_of_lt_of_le (Nat.succ_pos _) h)
    rw [List.flatMap_cons, decodeChars_char, ih (Nat.le_of_succ_le_succ h)]

/-- `s.encode("utf-8").decode("utf-8", errors="replace") == s` -/
theorem decodeUtf8_encodeUtf8 (s : String) : decodeUtf8 (encodeUtf8 s) = s := by
  have hlength : ∀ cs : List Char, cs.length ≤ (cs.flatMap String.utf8EncodeChar).length := by
    intro cs
    induction cs with
    | nil => exact le_rfl
    | cons c cs ih =>
      have hpos : 0 < (String.utf8EncodeChar c).length := List.length_pos_of_ne_nil String.utf8EncodeChar_ne_nil
      rw [List.flatMap_cons, List.length_append, List.length_cons]
      omega
  rw [decodeUtf8, encodeUtf8, decodeChars_encoded (hlength _), String.ofList_toList]

end Text
