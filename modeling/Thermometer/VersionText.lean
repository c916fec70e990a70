import Thermometer.ParseVersion
import Mathlib.Data.List.TakeWhile

namespace Thermometer.ParseVersion

def NoDigit (rest : List Char) : Prop := ∀ c ∈ rest.head?, c.isDigit = false

/-- A string of decimal digits, at least one. -/
structure Digits where
  chars : List Char
  ne_nil : chars ≠ []
  isDigit : ∀ c ∈ chars, c.isDigit = true

def Digits.value (ds : Digits) : Nat := decimal ds.chars

theorem takeWhile_digits (ds : Digits) {rest : List Char} (hrest : NoDigit rest) :
    (ds.chars ++ rest).takeWhile Char.isDigit = ds.chars := by
  rw [List.takeWhile_append_of_pos ds.isDigit]
  cases rest with
  | nil => simp
  | cons c rest => simp [hrest c rfl]

theorem dropWhile_digits (ds : Digits) {rest : List Char} (hrest : NoDigit rest) :
    (ds.chars ++ rest).dropWhile Char.isDigit = rest := by
  rw [List.dropWhile_append_of_pos ds.isDigit]
  cases rest with
  | nil => rfl
  | cons c rest => simp [hrest c rfl]

theorem noDigit_dropWhile (sv : List Char) : NoDigit (sv.dropWhile Char.isDigit) := by
  intro c hc
  have h := List.head?_dropWhile_not Char.isDigit sv
  rw [Option.mem_def.mp hc] at h
  exact h

/-- A number as it is read: digits, with a minus sign or without. -/
structure Numeral where
  minus : Bool
  digits : Digits

def Numeral.chars (x : Numeral) : List Char :=
  if x.minus then '-' :: x.digits.chars else x.digits.chars

def Numeral.value (x : Numeral) : Int :=
  if x.minus then -(x.digits.value : Int) else x.digits.value

def Numeral.Fits (x : Numeral) : Prop := -2147483648 ≤ x.value ∧ x.value ≤ 2147483647

instance (x : Numeral) : Decidable x.Fits := instDecidableAnd

def readDigits (minus : Bool) (body : List Char) : Option (Int × List Char) :=
  let digits := body.takeWhile Char.isDigit
  let value : Int := if minus then -(decimal digits : Int) else (decimal digits : Int)
  if digits = [] then none
  else if -2147483648 ≤ value ∧ value ≤ 2147483647 then
    some (value, body.dropWhile Char.isDigit)
  else none

theorem fromChars_minus (body : List Char) : fromChars ('-' :: body) = readDigits true body :=
  rfl

theorem fromChars_plain {sv : List Char} (h : sv.head? ≠ some '-') :
    fromChars sv = readDigits false sv := by
  unfold fromChars
  split
  next heq =>
    split at heq
    · exact absurd rfl h
    · obtain ⟨rfl, rfl⟩ := Prod.mk.inj heq
      rfl

theorem Digits.exists_head (ds : Digits) :
    ∃ d cs, ds.chars = d :: cs ∧ d.isDigit = true := by
  obtain ⟨d, cs, hcs⟩ := List.exists_cons_of_ne_nil ds.ne_nil
  exact ⟨d, cs, hcs, ds.isDigit d (by simp [hcs])⟩

theorem Digits.head_ne (ds : Digits) (rest : List Char) {c : Char} (hc : c.isDigit = false) :
    (ds.chars ++ rest).head? ≠ some c := by
  obtain ⟨d, cs, hcs, hd⟩ := ds.exists_head
  rw [hcs]
  intro h
  obtain rfl : d = c := Option.some.inj h
  exact absurd hd (by simp [hc])

theorem readDigits_numeral (x : Numeral) {rest : List Char} (hrest : NoDigit rest) :
    readDigits x.minus (x.digits.chars ++ rest) =
      if x.Fits then some (x.value, rest) else none := by
  unfold readDigits
  rw [takeWhile_digits x.digits hrest, dropWhile_digits x.digits hrest]
  simp only [if_neg x.digits.ne_nil]
  rfl

theorem fromChars_numeral (x : Numeral) {rest : List Char} (hrest : NoDigit rest) :
    fromChars (x.chars ++ rest) = if x.Fits then some (x.value, rest) else none := by
  rw [← readDigits_numeral x hrest]
  obtain ⟨minus, ds⟩ := x
  cases minus with
  | true => exact fromChars_minus (ds.chars ++ rest)
  | false => exact fromChars_plain (ds.head_ne rest rfl)

theorem readDigits_inv {minus : Bool} {body rest : List Char} {n : Int}
    (h : readDigits minus body = some (n, rest)) :
    ∃ ds : Digits, body = ds.chars ++ rest ∧ NoDigit rest ∧
      (Numeral.mk minus ds).Fits ∧ (Numeral.mk minus ds).value = n := by
  obtain ⟨hne, h⟩ := Option.ite_none_left_eq_some.mp h
  obtain ⟨hfits, h⟩ := Option.ite_none_right_eq_some.mp h
  obtain ⟨hvalue, hdrop⟩ := Prod.mk.inj (Option.some.inj h)
  have hdigits : ∀ c ∈ body.takeWhile Char.isDigit, c.isDigit = true :=
    fun c hc => List.mem_takeWhile_imp hc
  refine ⟨⟨body.takeWhile Char.isDigit, hne, hdigits⟩, ?_, ?_, hfits, hvalue⟩
  · rw [← hdrop]
    exact List.takeWhile_append_dropWhile.symm
  · rw [← hdrop]
    exact noDigit_dropWhile body

theorem fromChars_inv {sv rest : List Char} {n : Int} (h : fromChars sv = some (n, rest)) :
    ∃ x : Numeral, x.Fits ∧ x.value = n ∧ sv = x.chars ++ rest ∧ NoDigit rest := by
  by_cases hminus : sv.head? = some '-'
  · obtain ⟨body, rfl⟩ : ∃ body, sv = '-' :: body := List.head?_eq_some_iff.mp hminus
    obtain ⟨ds, rfl, hrest, hfits, hvalue⟩ := readDigits_inv ((fromChars_minus body).symm.trans h)
    exact ⟨⟨true, ds⟩, hfits, hvalue, rfl, hrest⟩
  · obtain ⟨ds, rfl, hrest, hfits, hvalue⟩ := readDigits_inv ((fromChars_plain hminus).symm.trans h)
    exact ⟨⟨false, ds⟩, hfits, hvalue, rfl, hrest⟩

theorem Numeral.unique {x y : Numeral} {rest rest' : List Char} (hrest : NoDigit rest)
    (hrest' : NoDigit rest') (h : x.chars ++ rest = y.chars ++ rest') :
    x.minus = y.minus ∧ rest = rest' := by
  obtain ⟨minus, ds⟩ := x
  obtain ⟨minus', ds'⟩ := y
  have hdrop : ds.chars ++ rest = ds'.chars ++ rest' → rest = rest' := by
    intro he
    rw [← dropWhile_digits ds hrest, he, dropWhile_digits ds' hrest']
  cases minus with
  | true =>
    cases minus' with
    | true => exact ⟨rfl, hdrop (List.cons_inj_right '-' |>.mp h)⟩
    | false => exact absurd (congrArg List.head? h).symm (ds'.head_ne rest' rfl)
  | false =>
    cases minus' with
    | true => exact absurd (congrArg List.head? h) (ds.head_ne rest rfl)
    | false => exact ⟨rfl, hdrop h⟩

/-- A dot that a number leaves in front is dropped. -/
def afterDot : List Char → List Char
  | '.' :: rest => rest
  | rest => rest

theorem Numeral.chars_ne_nil (x : Numeral) (rest : List Char) : x.chars ++ rest ≠ [] := by
  obtain ⟨minus, ds⟩ := x
  cases minus with
  | true => exact List.cons_ne_nil _ _
  | false => exact List.append_ne_nil_of_left_ne_nil ds.ne_nil rest

theorem parseNext_eq {sv : List Char} (h : sv ≠ []) :
    parseNext sv = (fromChars sv).map fun p => (p.1, afterDot p.2) := by
  rw [parseNext, if_neg (by simpa using h)]
  rfl

theorem parseNext_numeral (x : Numeral) {rest : List Char} (hrest : NoDigit rest) :
    parseNext (x.chars ++ rest) = if x.Fits then some (x.value, afterDot rest) else none := by
  rw [parseNext_eq (x.chars_ne_nil rest), fromChars_numeral x hrest]
  split
  · rfl
  · rfl

theorem parseNext_inv {sv next : List Char} {n : Int} (h : parseNext sv = some (n, next)) :
    ∃ (x : Numeral) (rest : List Char), x.Fits ∧ x.value = n ∧ sv = x.chars ++ rest ∧
      NoDigit rest ∧ afterDot rest = next := by
  have hne : sv ≠ [] := by
    rintro rfl
    exact absurd h (by simp [parseNext])
  rw [parseNext_eq hne] at h
  obtain ⟨⟨m, rest⟩, hread, hpair⟩ := Option.map_eq_some_iff.mp h
  obtain ⟨x, hfits, hvalue, hsv, hrest⟩ := fromChars_inv hread
  obtain ⟨hn, hnext⟩ := Prod.mk.inj hpair
  exact ⟨x, rest, hfits, hvalue.trans hn, hsv, hrest, hnext⟩

def separator (dot : Bool) : List Char := if dot then ['.'] else []

theorem noDigit_separator {dot : Bool} {x : Numeral} (h : dot = false → x.minus = true)
    (rest : List Char) : NoDigit (separator dot ++ (x.chars ++ rest)) := by
  intro c hc
  cases dot with
  | true =>
    obtain rfl : '.' = c := Option.some.inj hc
    rfl
  | false =>
    rw [Numeral.chars, if_pos (h rfl)] at hc
    obtain rfl : '-' = c := Option.some.inj hc
    rfl

theorem Numeral.head_ne (x : Numeral) (rest : List Char) {c : Char} (hc : c.isDigit = false)
    (hminus : c ≠ '-') : (x.chars ++ rest).head? ≠ some c := by
  obtain ⟨minus, ds⟩ := x
  cases minus with
  | true => exact fun h => hminus (Option.some.inj h).symm
  | false => exact ds.head_ne rest hc

theorem afterDot_of_ne {rest : List Char} (h : rest.head? ≠ some '.') : afterDot rest = rest := by
  unfold afterDot
  split
  · exact absurd rfl h
  · rfl

theorem afterDot_separator (dot : Bool) (x : Numeral) (rest : List Char) :
    afterDot (separator dot ++ (x.chars ++ rest)) = x.chars ++ rest := by
  cases dot with
  | true => rfl
  | false =>
    apply afterDot_of_ne
    exact x.head_ne rest rfl (by decide)

/-- What lies between two numbers is a dot, or nothing before a minus sign. -/
theorem separator_of_afterDot {before rest : List Char} {x : Numeral} (hbefore : NoDigit before)
    (h : afterDot before = x.chars ++ rest) :
    ∃ dot, before = separator dot ++ (x.chars ++ rest) ∧ (dot = false → x.minus = true) := by
  by_cases hdot : before.head? = some '.'
  · obtain ⟨after, rfl⟩ := List.head?_eq_some_iff.mp hdot
    exact ⟨true, congrArg (List.cons '.') h, fun hf => absurd hf (by decide)⟩
  · rw [afterDot_of_ne hdot] at h
    refine ⟨false, h, fun _ => ?_⟩
    obtain ⟨minus, ds⟩ := x
    cases minus with
    | true => rfl
    | false =>
      obtain ⟨d, cs, hcs, hd⟩ := ds.exists_head
      have hhead : before.head? = some d := by
        change before = ds.chars ++ rest at h
        rw [h, hcs]
        rfl
      exact absurd hd (by simp [hbefore d hhead])

/-- A string as the parser reads it: three numbers, each behind a dot or with a
minus sign of its own, between spaces and a rest that no digit starts. -/
structure Reading where
  spaces : Nat
  major : Numeral
  firstDot : Bool
  minor : Numeral
  secondDot : Bool
  patch : Numeral
  suffix : List Char
  minor_minus : firstDot = false → minor.minus = true
  patch_minus : secondDot = false → patch.minus = true
  noDigit_suffix : NoDigit suffix

namespace Reading

def chars (r : Reading) : List Char :=
  List.replicate r.spaces ' ' ++ (r.major.chars ++ (separator r.firstDot ++
    (r.minor.chars ++ (separator r.secondDot ++ (r.patch.chars ++ r.suffix)))))

def version (r : Reading) : Version := ⟨r.major.value, r.minor.value, r.patch.value⟩

def Fits (r : Reading) : Prop := r.major.Fits ∧ r.minor.Fits ∧ r.patch.Fits

instance (r : Reading) : Decidable r.Fits := instDecidableAnd

def Signed (r : Reading) : Prop :=
  r.major.minus = true ∨ r.minor.minus = true ∨ r.patch.minus = true

end Reading

theorem dropWhile_spaces (n : Nat) (x : Numeral) (rest : List Char) :
    (List.replicate n ' ' ++ (x.chars ++ rest)).dropWhile (· = ' ') = x.chars ++ rest := by
  rw [List.dropWhile_append_of_pos (by simp)]
  obtain ⟨c, cs, hcs⟩ := List.exists_cons_of_ne_nil (x.chars_ne_nil rest)
  have hc : c ≠ ' ' := by
    rintro rfl
    exact x.head_ne rest rfl (by decide) (congrArg List.head? hcs)
  rw [hcs, List.dropWhile_cons_of_neg (by simpa using hc)]

theorem parseVersion_eq {sv : List Char} (h : sv.dropWhile (· = ' ') ≠ []) :
    parseVersion sv = (parseNext (sv.dropWhile (· = ' '))).bind fun major =>
      (parseNext major.2).bind fun minor =>
        (parseNext minor.2).map fun patch => ⟨major.1, minor.1, patch.1⟩ := by
  unfold parseVersion
  split
  next heq => exact absurd heq h
  next heq => rw [heq]

theorem parseVersion_reading (r : Reading) :
    parseVersion r.chars = if r.Fits then some r.version else none := by
  have htrim : r.chars.dropWhile (· = ' ') = _ := dropWhile_spaces r.spaces r.major _
  rw [parseVersion_eq (by rw [htrim]; exact r.major.chars_ne_nil _), htrim,
    parseNext_numeral r.major (noDigit_separator r.minor_minus _)]
  by_cases hmajor : r.major.Fits
  · rw [if_pos hmajor, Option.bind_some, afterDot_separator,
      parseNext_numeral r.minor (noDigit_separator r.patch_minus _)]
    by_cases hminor : r.minor.Fits
    · rw [if_pos hminor, Option.bind_some, afterDot_separator,
        parseNext_numeral r.patch r.noDigit_suffix]
      by_cases hpatch : r.patch.Fits
      · rw [if_pos hpatch, if_pos ⟨hmajor, hminor, hpatch⟩]
        rfl
      · rw [if_neg hpatch, if_neg (fun h => hpatch h.2.2)]
        rfl
    · rw [if_neg hminor, if_neg (fun h => hminor h.2.1)]
      rfl
  · rw [if_neg hmajor, if_neg (fun h => hmajor h.1)]
    rfl

theorem parseVersion_inv {sv : List Char} {v : Version} (h : parseVersion sv = some v) :
    ∃ r : Reading, r.Fits ∧ r.chars = sv ∧ r.version = v := by
  have htrim : sv.dropWhile (· = ' ') ≠ [] := by
    intro hnil
    rw [parseVersion, hnil] at h
    exact absurd h (by simp)
  rw [parseVersion_eq htrim] at h
  obtain ⟨⟨n₁, next₁⟩, h₁, h⟩ := Option.bind_eq_some_iff.mp h
  obtain ⟨⟨n₂, next₂⟩, h₂, h⟩ := Option.bind_eq_some_iff.mp h
  obtain ⟨⟨n₃, next₃⟩, h₃, rfl⟩ := Option.map_eq_some_iff.mp h
  obtain ⟨x, rest₁, hx, rfl, hsv, hrest₁, hnext₁⟩ := parseNext_inv h₁
  obtain ⟨y, rest₂, hy, rfl, rfl, hrest₂, hnext₂⟩ := parseNext_inv h₂
  obtain ⟨z, rest₃, hz, rfl, rfl, hrest₃, -⟩ := parseNext_inv h₃
  obtain ⟨dot₁, rfl, hminus₁⟩ := separator_of_afterDot hrest₁ hnext₁
  obtain ⟨dot₂, rfl, hminus₂⟩ := separator_of_afterDot hrest₂ hnext₂
  refine ⟨{
    spaces := (sv.takeWhile (· = ' ')).length
    major := x
    firstDot := dot₁
    minor := y
    secondDot := dot₂
    patch := z
    suffix := rest₃
    minor_minus := hminus₁
    patch_minus := hminus₂
    noDigit_suffix := hrest₃ }, ⟨hx, hy, hz⟩, ?_, rfl⟩
  have hspaces : sv.takeWhile (· = ' ') = List.replicate (sv.takeWhile (· = ' ')).length ' ' := by
    apply List.eq_replicate_of_mem
    intro c hc
    simpa using List.mem_takeWhile_imp hc
  calc
    List.replicate (sv.takeWhile (· = ' ')).length ' ' ++ _
      = sv.takeWhile (· = ' ') ++ sv.dropWhile (· = ' ') := by rw [← hspaces, hsv]
    _ = sv := List.takeWhile_append_dropWhile

end Thermometer.ParseVersion
