import ReckonFlow.Lib.Text

/-! Python strings as sequences of code points: lone surrogates are among them, and are what
cannot be encoded. -/

/-- A Python `str`. -/
abbrev PyStr := List (Fin 0x110000)

namespace PyText

def codePoint (c : Char) : Fin 0x110000 :=
  ⟨c.toNat, by have := c.valid; simp only [Char.toNat, UInt32.isValidChar, Nat.isValidChar] at *; omega⟩

def py (s : String) : PyStr := s.toList.map codePoint

/-- The character of a code point; `none` for a surrogate. -/
def scalar (c : Fin 0x110000) : Option Char :=
  if h : c.val.isValidChar then some (Char.ofNatAux c.val h) else none

/-- The text without lone surrogates, if it has none. -/
def text? (s : PyStr) : Option String := (s.mapM scalar).map String.ofList

/-- `s.encode("utf-8")`; `none` where it raises. -/
def encode (s : PyStr) : Option (List UInt8) := (text? s).map Text.encodeUtf8

@[simp] theorem scalar_codePoint (c : Char) : scalar (codePoint c) = some c := by
  unfold scalar
  rw [dif_pos (show (codePoint c).val.isValidChar from c.valid)]
  rfl

theorem codePoint_injective : Function.Injective codePoint := fun c d h => by
  have hscalar := congrArg scalar h
  rw [scalar_codePoint, scalar_codePoint] at hscalar
  exact Option.some.inj hscalar

theorem text?_py (t : String) : text? (py t) = some t := by
  have hall : ∀ cs : List Char, (cs.map codePoint).mapM scalar = some cs := by
    intro cs
    induction cs with
    | nil => rfl
    | cons c cs ih => simp [ih]
  unfold text? py
  rw [hall, Option.map_some, String.ofList_toList]

theorem py_injective {t u : String} (h : py t = py u) : t = u := by
  have htext := congrArg text? h
  rw [text?_py, text?_py] at htext
  exact Option.some.inj htext

theorem take_py (t : String) (n : ℕ) : (py t).take n = py (String.ofList (t.toList.take n)) := by
  unfold py
  rw [String.toList_ofList, List.map_take]

theorem encode_py (t : String) : encode (py t) = some (Text.encodeUtf8 t) := by
  unfold encode
  rw [text?_py]
  rfl

theorem scalar_eq_some {c : Fin 0x110000} {d : Char} : scalar c = some d ↔ c = codePoint d := by
  constructor
  · intro h
    unfold scalar at h
    split_ifs at h with hc
    obtain rfl := Option.some.inj h
    rfl
  · rintro rfl
    exact scalar_codePoint d

/-- Text is read back from the code points of its characters only. -/
theorem text?_eq_some {s : PyStr} {t : String} : text? s = some t ↔ s = py t := by
  constructor
  · intro h
    obtain ⟨cs, hcs, rfl⟩ := Option.map_eq_some_iff.1 h
    unfold py
    rw [String.toList_ofList]
    clear h
    induction s generalizing cs with
    | nil =>
      obtain rfl : [] = cs := by simpa using hcs
      rfl
    | cons c s ih =>
      simp only [List.mapM_cons, Option.bind_eq_bind, Option.bind_eq_some_iff, Option.pure_def,
        Option.some.injEq] at hcs
      obtain ⟨d, hd, ds, hds, rfl⟩ := hcs
      rw [List.map_cons, scalar_eq_some.1 hd, ih ds hds]
  · rintro rfl
    exact text?_py t

end PyText
