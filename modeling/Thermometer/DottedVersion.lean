import Thermometer.VersionText

namespace Thermometer.ParseVersion

theorem spaces_unique {n n' : Nat} {x y : Numeral} {rest rest' : List Char}
    (h : List.replicate n ' ' ++ (x.chars ++ rest) = List.replicate n' ' ' ++ (y.chars ++ rest')) :
    x.chars ++ rest = y.chars ++ rest' := by
  rw [← dropWhile_spaces n x rest, h, dropWhile_spaces]

theorem Reading.unique {r r' : Reading} (h : r.chars = r'.chars) :
    r.major.minus = r'.major.minus ∧ r.minor.minus = r'.minor.minus ∧
      r.patch.minus = r'.patch.minus := by
  obtain ⟨hmajor, h⟩ := Numeral.unique (noDigit_separator r.minor_minus _)
    (noDigit_separator r'.minor_minus _) (spaces_unique h)
  have h := congrArg afterDot h
  rw [afterDot_separator, afterDot_separator] at h
  obtain ⟨hminor, h⟩ := Numeral.unique (noDigit_separator r.patch_minus _)
    (noDigit_separator r'.patch_minus _) h
  have h := congrArg afterDot h
  rw [afterDot_separator, afterDot_separator] at h
  obtain ⟨hpatch, -⟩ := Numeral.unique r.noDigit_suffix r'.noDigit_suffix h
  exact ⟨hmajor, hminor, hpatch⟩

/-- A dotted version string: spaces, three strings of digits with a dot between
each two, and a rest that no digit starts. -/
structure Dotted where
  spaces : Nat
  major : Digits
  minor : Digits
  patch : Digits
  suffix : List Char
  noDigit_suffix : NoDigit suffix

namespace Dotted

def chars (d : Dotted) : List Char :=
  List.replicate d.spaces ' ' ++ d.major.chars ++ '.' :: d.minor.chars ++ '.' :: d.patch.chars ++
    d.suffix

def version (d : Dotted) : Version := ⟨d.major.value, d.minor.value, d.patch.value⟩

def Fits (d : Dotted) : Prop :=
  d.major.value ≤ 2147483647 ∧ d.minor.value ≤ 2147483647 ∧ d.patch.value ≤ 2147483647

instance (d : Dotted) : Decidable d.Fits := instDecidableAnd

def reading (d : Dotted) : Reading where
  spaces := d.spaces
  major := ⟨false, d.major⟩
  firstDot := true
  minor := ⟨false, d.minor⟩
  secondDot := true
  patch := ⟨false, d.patch⟩
  suffix := d.suffix
  minor_minus h := absurd h.symm Bool.false_ne_true
  patch_minus h := absurd h.symm Bool.false_ne_true
  noDigit_suffix := d.noDigit_suffix

theorem chars_reading (d : Dotted) : d.reading.chars = d.chars := by
  simp only [chars, Reading.chars, reading, Numeral.chars, separator, List.append_assoc,
    List.cons_append, List.nil_append, if_true, Bool.false_eq_true, if_false]

theorem version_reading (d : Dotted) : d.reading.version = d.version :=
  rfl

theorem fits_reading (d : Dotted) : d.reading.Fits ↔ d.Fits := by
  have hfits : ∀ ds : Digits, (Numeral.mk false ds).Fits ↔ ds.value ≤ 2147483647 := by
    intro ds
    have hvalue : (Numeral.mk false ds).value = ds.value := rfl
    rw [Numeral.Fits, hvalue]
    omega
  exact and_congr (hfits d.major) (and_congr (hfits d.minor) (hfits d.patch))

theorem not_signed (d : Dotted) : ¬ d.reading.Signed := by
  rintro (h | h | h)
  all_goals exact absurd h Bool.false_ne_true

end Dotted

theorem Reading.exists_dotted {r : Reading} (h : ¬ r.Signed) : ∃ d : Dotted, d.reading = r := by
  obtain ⟨spaces, ⟨minus₁, ds₁⟩, dot₁, ⟨minus₂, ds₂⟩, dot₂, ⟨minus₃, ds₃⟩, suffix, h₁, h₂, hrest⟩ := r
  simp only [Reading.Signed, not_or, Bool.not_eq_true] at h
  obtain ⟨rfl, rfl, rfl⟩ := h
  have hdot₁ : dot₁ = true := by simpa using h₁
  have hdot₂ : dot₂ = true := by simpa using h₂
  subst hdot₁ hdot₂
  exact ⟨⟨spaces, ds₁, ds₂, ds₃, suffix, hrest⟩, rfl⟩

/-- The parser accepts dotted versions only, save for the strings in which it
reads a minus sign in front of a number. -/
theorem dottedOnly_iff_unsigned (sv : List Char) :
    (∀ v, parseVersion sv = some v → ∃ d : Dotted, d.Fits ∧ d.chars = sv ∧ d.version = v) ↔
      ¬ ∃ r : Reading, r.Fits ∧ r.Signed ∧ r.chars = sv := by
  constructor
  · rintro hdotted ⟨r, hfits, hsigned, rfl⟩
    have hread : parseVersion r.chars = some r.version := by
      rw [parseVersion_reading, if_pos hfits]
    obtain ⟨d, -, hchars, -⟩ := hdotted r.version hread
    obtain ⟨hmajor, hminor, hpatch⟩ := Reading.unique (d.chars_reading.trans hchars)
    apply d.not_signed
    rw [Reading.Signed, hmajor, hminor, hpatch]
    exact hsigned
  · intro hunsigned v hv
    obtain ⟨r, hfits, hchars, rfl⟩ := parseVersion_inv hv
    obtain ⟨d, rfl⟩ := Reading.exists_dotted fun hs => hunsigned ⟨r, hfits, hs, hchars⟩
    exact ⟨d, d.fits_reading.mp hfits, d.chars_reading.symm.trans hchars, rfl⟩

/-- The name of a revision after the tag 1.2 is read as a version with a negative patch. -/
theorem revision_accepted :
    parseVersion "1.2-3-gabc".toList = some ⟨1, 2, -3⟩ ∧
      ¬ ∃ d : Dotted, d.chars = "1.2-3-gabc".toList := by
  refine ⟨by decide, ?_⟩
  rintro ⟨d, hd⟩
  have hcount : d.chars.count '.' = 1 := by
    rw [hd]
    decide
  simp only [Dotted.chars, List.count_append, List.count_cons_self] at hcount
  omega

/-- The decimal digits of a number behind leading zeros. -/
def Digits.render (zeros n : Nat) : Digits where
  chars := List.replicate zeros '0' ++ Nat.toDigits 10 n
  ne_nil := List.append_ne_nil_of_right_ne_nil _ Nat.toDigits_ne_nil
  isDigit c hc := by
    obtain h | h := List.mem_append.mp hc
    · rw [List.eq_of_mem_replicate h]
      rfl
    · exact Nat.isDigit_of_mem_toDigits (by decide) (by decide) h

theorem Digits.value_render (zeros n : Nat) : (render zeros n).value = n := by
  have hdecimal : (render zeros n).value = Nat.ofDigitChars 10 (render zeros n).chars 0 :=
    Nat.ofDigitChars_eq_foldl.symm
  rw [hdecimal]
  simp only [render, Nat.ofDigitChars_append, Nat.ofDigitChars_replicate_zero, Nat.mul_zero,
    Nat.ofDigitChars_ten_toDigits]

/-- A version with everything that may vary in its text. -/
structure Rendering where
  spaces : Nat
  majorZeros : Nat
  major : Nat
  minorZeros : Nat
  minor : Nat
  patchZeros : Nat
  patch : Nat
  suffix : List Char
  noDigit_suffix : NoDigit suffix

namespace Rendering

def dotted (a : Rendering) : Dotted where
  spaces := a.spaces
  major := .render a.majorZeros a.major
  minor := .render a.minorZeros a.minor
  patch := .render a.patchZeros a.patch
  suffix := a.suffix
  noDigit_suffix := a.noDigit_suffix

def chars (a : Rendering) : List Char := a.dotted.chars

def version (a : Rendering) : Version := ⟨a.major, a.minor, a.patch⟩

def Fits (a : Rendering) : Prop :=
  a.major ≤ 2147483647 ∧ a.minor ≤ 2147483647 ∧ a.patch ≤ 2147483647

instance (a : Rendering) : Decidable a.Fits := instDecidableAnd

theorem version_dotted (a : Rendering) : a.dotted.version = a.version := by
  simp only [Dotted.version, dotted, Digits.value_render, version]

theorem fits_dotted (a : Rendering) : a.dotted.Fits ↔ a.Fits := by
  simp only [Dotted.Fits, dotted, Digits.value_render, Fits]

theorem parseVersion_chars (a : Rendering) :
    parseVersion a.chars = if a.Fits then some a.version else none := by
  rw [chars, ← Dotted.chars_reading, parseVersion_reading, Dotted.version_reading, version_dotted]
  simp only [Dotted.fits_reading, fits_dotted]

theorem newer_iff (a b : Rendering) :
    Newer b.chars a.chars ↔ a.Fits ∧ b.Fits ∧ b.version.triple < a.version.triple := by
  simp only [Newer, parseVersion_chars, Option.ite_none_right_eq_some, Option.some.injEq]
  constructor
  · rintro ⟨v, w, ⟨hb, rfl⟩, ⟨ha, rfl⟩, hlt⟩
    exact ⟨ha, hb, hlt⟩
  · rintro ⟨ha, hb, hlt⟩
    exact ⟨_, _, ⟨hb, rfl⟩, ⟨ha, rfl⟩, hlt⟩

end Rendering

/-- Version strings are read back as what they render, unless a component is too
great for an `int`, and two of them compare as their triples. -/
theorem version_round_trip (a b : Rendering) :
    parseVersion a.chars = (if a.Fits then some a.version else none) ∧
      (isNewerVersion a.chars b.chars = true ↔
        a.Fits ∧ b.Fits ∧ b.version.triple < a.version.triple) :=
  ⟨a.parseVersion_chars, (isNewerVersion_iff a.chars b.chars).trans (Rendering.newer_iff a b)⟩

end Thermometer.ParseVersion
