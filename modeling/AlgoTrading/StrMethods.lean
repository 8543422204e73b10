import AlgoTrading.Decimals
/-!
# StrMethods — what `str.strip` and `str.upper` do to a name

Both go by Unicode's tables, which are a parameter: known of them is what they make of the printable ASCII that names are
written in, and that what they leave ends in no newline.
-/
namespace Atp

/-- A character of printable ASCII that is no blank. -/
def Graphic (c : Char) : Prop := '!' ≤ c ∧ c ≤ '~'

instance (c : Char) : Decidable (Graphic c) := inferInstanceAs (Decidable (_ ∧ _))

theorem Graphic.not_blank {c : Char} (h : Graphic c) : c.isWhitespace = false := by
  have hlow : '!'.toNat ≤ c.toNat := h.1
  have hne (d : Char) (hd : d.toNat < '!'.toNat) : c ≠ d := by
    rintro rfl
    exact absurd hlow (not_le.2 hd)
  simp [Char.isWhitespace, hne ' ' (by decide), hne '\t' (by decide), hne '\r' (by decide), hne '\n' (by decide)]

/-- **`str.strip` and `str.upper`.** -/
structure StrMethods where
  strip : String → String
  upper : String → String
  strip_graphic : ∀ s : String, (∀ c ∈ s.toList, Graphic c) → strip s = s
  upper_graphic : ∀ s : String, (∀ c ∈ s.toList, Graphic c) → upper s = String.ofList (s.toList.map Char.toUpper)
  ends : ∀ s : String, (upper (strip s)).toList.getLast? ≠ some '\n'

namespace StrMethods

/-- `s.strip().upper()`. -/
def stripUpper (str : StrMethods) (s : String) : String := str.upper (str.strip s)

theorem stripUpper_graphic (str : StrMethods) {s : String} (h : ∀ c ∈ s.toList, Graphic c) :
    str.stripUpper s = String.ofList (s.toList.map Char.toUpper) := by
  rw [stripUpper, str.strip_graphic s h, str.upper_graphic s h]

/-! ## On ASCII -/

theorem toUpper_newline {c : Char} (h : c.toUpper = '\n') : c = '\n' := by
  unfold Char.toUpper at h
  split at h
  · next hlower =>
    rw [Char.ext_iff] at h
    dsimp only at h
    obtain ⟨ha, hz⟩ := hlower
    rw [UInt32.le_iff_toNat_le] at ha hz
    have hn := congrArg UInt32.toNat h
    rw [UInt32.toNat_add] at hn
    have hshift : ('A'.val - 'a'.val).toNat = 4294967264 := by decide
    have hfirst : 'a'.val.toNat = 97 := by decide
    have hlast : 'z'.val.toNat = 122 := by decide
    have hnew : '\n'.val.toNat = 10 := by decide
    omega
  · exact h

/-- Blanks dropped at both ends. -/
def stripped (l : List Char) : List Char := ((l.dropWhile Char.isWhitespace).reverse.dropWhile Char.isWhitespace).reverse

theorem stripped_graphic {l : List Char} (h : ∀ c ∈ l, Graphic c) : stripped l = l := by
  have hblank : ∀ c ∈ l, c.isWhitespace = false := fun c hc => (h c hc).not_blank
  rw [stripped, Decimals.dropWhile_of_all hblank, Decimals.dropWhile_of_all (by simpa using hblank), List.reverse_reverse]

/-- What is stripped ends in no newline. -/
theorem stripped_ends (l : List Char) : ((stripped l).map Char.toUpper).getLast? ≠ some '\n' := by
  intro h
  rw [stripped, List.getLast?_map, List.getLast?_reverse, Option.map_eq_some_iff] at h
  obtain ⟨c, hc, hup⟩ := h
  have := List.head?_dropWhile_not Char.isWhitespace ((l.dropWhile Char.isWhitespace).reverse)
  rw [hc, toUpper_newline hup] at this
  cases this

/-- The two on ASCII. -/
def ascii : StrMethods where
  strip s := String.ofList (stripped s.toList)
  upper s := String.ofList (s.toList.map Char.toUpper)
  strip_graphic s h := by rw [stripped_graphic h, String.ofList_toList]
  upper_graphic _ _ := rfl
  ends s := by
    rw [String.toList_ofList, String.toList_ofList]
    exact stripped_ends s.toList

end StrMethods
end Atp
