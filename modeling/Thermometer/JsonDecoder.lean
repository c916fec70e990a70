import Thermometer.Json
import Mathlib.Data.List.TakeWhile

namespace Thermometer.Json

variable {α : Type}

def skip (cs : List Char) : List Char := cs.dropWhile isSpace

/-- The character `c`, with space before it or none. -/
def expect (c : Char) (cs : List Char) : Option (List Char) :=
  match skip cs with
  | [] => none
  | d :: t => if d = c then some t else none

def literal (cs : List Char) : Option (Value × List Char) :=
  ([Literal.null, Literal.true, Literal.false].find? fun l => l.name.isPrefixOf cs).map fun l =>
    (.literal l, cs.drop l.name.length)

/-- A number is as long as its characters go on. -/
def number (cs : List Char) : Option (Value × List Char) :=
  if isNumber (cs.takeWhile isNumberChar) then
    some (.number (cs.takeWhile isNumberChar), cs.dropWhile isNumberChar)
  else none

/-- What a string goes on with. -/
inductive Due where
  | any | escaped
  | hex (more : Nat)

def keep (c : Char) (r : Option (List Char × List Char)) : Option (List Char × List Char) :=
  r.map fun r => (c :: r.1, r.2)

/-- The characters of a string up to its closing quotation mark. -/
def chars : Due → List Char → Option (List Char × List Char)
  | _, [] => none
  | .any, c :: cs =>
      if c = '"' then some ([], cs)
      else if c = '\\' then keep c (chars .escaped cs)
      else if isPlain c then keep c (chars .any cs)
      else none
  | .escaped, c :: cs =>
      if c = 'u' then keep c (chars (.hex 3) cs)
      else if isEscape c then keep c (chars .any cs)
      else none
  | .hex 0, c :: cs => if isHex c then keep c (chars .any cs) else none
  | .hex (more + 1), c :: cs => if isHex c then keep c (chars (.hex more) cs) else none

def quoted : List Char → Option (List Char × List Char)
  | [] => none
  | c :: cs => if c = '"' then chars .any cs else none

/-- Items with commas between them, up to the closing bracket. -/
def items (item : List Char → Option (α × List Char)) (closing : Char) :
    Nat → List Char → Option (List α × List Char)
  | 0, _ => none
  | fuel + 1, cs =>
      (item (skip cs)).bind fun r =>
        match expect ',' r.2 with
        | some rest => (items item closing fuel rest).map fun s => (r.1 :: s.1, s.2)
        | none => (expect closing r.2).map fun t => ([r.1], t)

def bracketed (item : List Char → Option (α × List Char)) (closing : Char) (cs : List Char) :
    Option (List α × List Char) :=
  match expect closing cs with
  | some t => some ([], t)
  | none => items item closing cs.length cs

def member (item : List Char → Option (Value × List Char)) (cs : List Char) :
    Option ((List Char × Value) × List Char) :=
  (quoted cs).bind fun name =>
    (expect ':' name.2).bind fun rest =>
      (item (skip rest)).map fun r => ((name.1, r.1), r.2)

def value : Nat → List Char → Option (Value × List Char)
  | 0, _ => none
  | _ + 1, [] => none
  | fuel + 1, c :: cs =>
      if c = '"' then (chars .any cs).map fun r => (.string r.1, r.2)
      else if c = '[' then (bracketed (value fuel) ']' cs).map fun r => (.array r.1, r.2)
      else if c = '\x7b' then
        (bracketed (member (value fuel)) '\x7d' cs).map fun r => (.object r.1, r.2)
      else (literal (c :: cs)).or (number (c :: cs))

def decode (cs : List Char) : Option Value :=
  (value cs.length (skip cs)).bind fun r => if skip r.2 = [] then some r.1 else none

variable {p : Char → Bool} {c : Char} {s cs t u : List Char}

theorem Spans.refl (p : Char → Bool) (t : List Char) : Spans p t t := ⟨[], by simp, rfl⟩

theorem Spans.cons (hc : p c = true) (h : Spans p cs t) : Spans p (c :: cs) t := by
  obtain ⟨w, hw, rfl⟩ := h
  exact ⟨c :: w, List.forall_mem_cons.mpr ⟨hc, hw⟩, rfl⟩

theorem Spans.trans (h : Spans p cs t) (h' : Spans p t u) : Spans p cs u := by
  obtain ⟨w, hw, rfl⟩ := h
  obtain ⟨w', hw', rfl⟩ := h'
  exact ⟨w ++ w', List.forall_mem_append.mpr ⟨hw, hw'⟩, (List.append_assoc w w' u).symm⟩

theorem Spans.suffix (h : Spans p cs t) : t <:+ cs := by
  obtain ⟨w, -, rfl⟩ := h
  exact List.suffix_append w t

theorem Spans.dropWhile_eq (h : Spans p cs t) : cs.dropWhile p = t.dropWhile p := by
  obtain ⟨w, hw, rfl⟩ := h
  exact List.dropWhile_append_of_pos hw

theorem Spans.skip (h : Space cs (c :: t)) (hc : isSpace c = false) : skip cs = c :: t := by
  rw [Json.skip, h.dropWhile_eq]
  exact List.dropWhile_cons_of_neg (by simp [hc])

theorem Spans.expect (h : Space cs (c :: t)) (hc : isSpace c = false) : expect c cs = some t := by
  rw [Json.expect, h.skip hc]
  exact if_pos rfl

theorem Spans.expect_of_ne {d : Char} (h : Space cs (d :: t)) (hd : isSpace d = false)
    (hne : d ≠ c) : Json.expect c cs = none := by
  rw [Json.expect, h.skip hd]
  exact if_neg hne

theorem digits_spans (h : digits cs = some t) : Spans isNumberChar cs t := by
  cases cs with
  | nil => cases h
  | cons c cs =>
    obtain ⟨hc, ht⟩ := Option.ite_none_right_eq_some.mp h
    have hdigit : ∀ d : Char, d.isDigit = true → isNumberChar d = true := by
      intro d hd
      simp [isNumberChar, hd]
    have hrest : Spans isNumberChar cs (cs.dropWhile Char.isDigit) := by
      refine ⟨cs.takeWhile Char.isDigit, fun d hd => hdigit d ?_, List.takeWhile_append_dropWhile.symm⟩
      exact List.mem_takeWhile_imp hd
    rw [← Option.some.inj ht]
    exact hrest.cons (hdigit c hc)

theorem optional_spans {part : List Char → Option (List Char)}
    (hp : ∀ c, p c = true → isNumberChar c = true)
    (hpart : ∀ cs t, part cs = some t → Spans isNumberChar cs t) (h : optional p part cs = some t) :
    Spans isNumberChar cs t := by
  cases cs with
  | nil => exact Option.some.inj h ▸ Spans.refl _ _
  | cons c cs =>
    rw [optional] at h
    split at h
    next hc => exact (hpart cs t h).cons (hp c hc)
    next => exact Option.some.inj h ▸ Spans.refl _ _

theorem some_spans (cs t : List Char) (h : some cs = some t) : Spans isNumberChar cs t :=
  Option.some.inj h ▸ Spans.refl _ _

theorem minus_spans (h : minus cs = some t) : Spans isNumberChar cs t := by
  apply optional_spans _ some_spans h
  intro c hc
  obtain rfl := of_decide_eq_true hc
  rfl

theorem int_spans (h : int cs = some t) : Spans isNumberChar cs t := by
  cases cs with
  | nil => cases h
  | cons c cs =>
    rw [int] at h
    split at h
    next hc =>
      rw [← Option.some.inj h]
      exact (Spans.refl _ cs).cons (hc ▸ rfl)
    next => exact digits_spans h

theorem frac_spans (h : frac cs = some t) : Spans isNumberChar cs t := by
  apply optional_spans _ (fun _ _ => digits_spans) h
  intro c hc
  obtain rfl := of_decide_eq_true hc
  rfl

theorem sign_spans (h : sign cs = some t) : Spans isNumberChar cs t := by
  apply optional_spans _ some_spans h
  intro c hc
  simp only [Bool.or_eq_true, decide_eq_true_eq] at hc
  obtain rfl | rfl := hc <;> rfl

theorem exp_spans (h : exp cs = some t) : Spans isNumberChar cs t := by
  apply optional_spans _ _ h
  · intro c hc
    simp only [Bool.or_eq_true, decide_eq_true_eq] at hc
    obtain rfl | rfl := hc <;> rfl
  · intro cs t hdigits
    obtain ⟨u, hsign, hdigits⟩ := Option.bind_eq_some_iff.mp hdigits
    exact (sign_spans hsign).trans (digits_spans hdigits)

theorem isNumber_spans {token : List Char} (h : isNumber token = true) :
    token ≠ [] ∧ ∀ c ∈ token, isNumberChar c = true := by
  simp only [isNumber, decide_eq_true_eq, Option.bind_eq_some_iff] at h
  obtain ⟨u, ⟨t, ⟨cs, hminus, hint⟩, hfrac⟩, hexp⟩ := h
  constructor
  · rintro rfl
    cases hminus
    cases hint
  · obtain ⟨w, hw, htoken⟩ := (((minus_spans hminus).trans (int_spans hint)).trans
      (frac_spans hfrac)).trans (exp_spans hexp)
    rw [htoken, List.append_nil]
    exact hw

/-- No character of a number follows. -/
def Follows (t : List Char) : Prop := ∀ c u, t = c :: u → isNumberChar c = false

theorem number_complete {token : List Char} (h : isNumber token = true) (ht : Follows t) :
    number (token ++ t) = some (.number token, t) := by
  obtain ⟨-, hall⟩ := isNumber_spans h
  have hstop : t.takeWhile isNumberChar = [] ∧ t.dropWhile isNumberChar = t := by
    cases t with
    | nil => exact ⟨rfl, rfl⟩
    | cons c u =>
      have hc : ¬ isNumberChar c = true := by simp [ht c u rfl]
      exact ⟨List.takeWhile_cons_of_neg hc, List.dropWhile_cons_of_neg hc⟩
  rw [number, List.takeWhile_append_of_pos hall, List.dropWhile_append_of_pos hall, hstop.1, hstop.2,
    List.append_nil, if_pos h]

theorem chars_complete (h : Chars s) : chars .any (s ++ '"' :: t) = some (s, t) := by
  induction h with
  | nil => rw [List.nil_append, chars, if_pos rfl]
  | @plain c cs hc _ ih =>
    have hne : c ≠ '"' ∧ c ≠ '\\' := by
      constructor <;> rintro rfl <;> cases hc
    rw [List.cons_append, chars, if_neg hne.1, if_neg hne.2, if_pos hc, ih]
    rfl
  | @escape c cs hc _ ih =>
    have hne : c ≠ 'u' := by
      rintro rfl
      cases hc
    rw [List.cons_append, List.cons_append, chars, if_neg (by decide), if_pos rfl, chars, if_neg hne,
      if_pos hc, ih]
    rfl
  | @unicode u v w x cs hhex _ ih =>
    simp only [Bool.and_eq_true] at hhex
    obtain ⟨⟨⟨hu, hv⟩, hw⟩, hx⟩ := hhex
    simp only [List.cons_append]
    rw [chars, if_neg (by decide), if_pos rfl, chars, if_pos rfl, chars, if_pos hu, chars, if_pos hv,
      chars, if_pos hw, chars, if_pos hx, ih]
    rfl

theorem quoted_complete (h : Quoted s cs t) : quoted cs = some (s, t) := by
  obtain ⟨hs, rfl⟩ := h
  rw [quoted, if_pos rfl, chars_complete hs]

def isClosing (c : Char) : Bool := c = ']' || c = '\x7d'

/-- The text begins with what can begin a value or a member. -/
def Starts (cs : List Char) : Prop := ∃ c u, cs = c :: u ∧ isSpace c = false ∧ isClosing c = false

theorem Quoted.starts (h : Quoted s cs t) : Starts cs := ⟨'"', _, h.2, rfl, rfl⟩

theorem Quoted.suffix (h : Quoted s cs t) : t <:+ cs := by
  obtain ⟨-, rfl⟩ := h
  exact ((List.suffix_cons '"' t).trans (List.suffix_append s _)).trans (List.suffix_cons '"' _)

theorem isSpace_ne (h : isSpace c = true) : isNumberChar c = false := by
  simp only [isSpace, Bool.or_eq_true, decide_eq_true_eq] at h
  obtain ((rfl | rfl) | rfl) | rfl := h <;> rfl

theorem isClosing_ne (h : isClosing c = true) :
    isSpace c = false ∧ isNumberChar c = false ∧ c ≠ ',' := by
  simp only [isClosing, Bool.or_eq_true, decide_eq_true_eq] at h
  obtain rfl | rfl := h <;> exact ⟨rfl, rfl, by decide⟩

theorem isNumber_starts {token : List Char} (h : isNumber token = true) : Starts (token ++ t) := by
  obtain ⟨hne, hall⟩ := isNumber_spans h
  cases token with
  | nil => exact absurd rfl hne
  | cons c token =>
    have hc : isNumberChar c = true := hall c (by simp)
    refine ⟨c, token ++ t, rfl, ?_, ?_⟩
    · rw [Bool.eq_false_iff]
      intro hspace
      rw [isSpace_ne hspace] at hc
      cases hc
    · rw [Bool.eq_false_iff]
      intro hclosing
      rw [(isClosing_ne hclosing).2.1] at hc
      cases hc

theorem Reads.starts {depth : Nat} {v : Value} (h : Reads depth v cs t) : Starts cs := by
  cases depth with
  | zero => exact h.elim
  | succ depth =>
    cases v with
    | literal l =>
      obtain rfl : cs = l.name ++ t := h
      cases l <;> exact ⟨_, _, rfl, rfl, rfl⟩
    | number token =>
      obtain ⟨htoken, rfl⟩ := h
      exact isNumber_starts htoken
    | string s => exact Quoted.starts h
    | array vs =>
      obtain ⟨u, rfl, -⟩ := h
      exact ⟨_, _, rfl, rfl, rfl⟩
    | object ms =>
      obtain ⟨u, rfl, -⟩ := h
      exact ⟨_, _, rfl, rfl, rfl⟩

theorem Member.starts {R : Value → List Char → List Char → Prop} {m : List Char × Value}
    (h : Member R m cs t) : Starts cs := by
  obtain ⟨u, v, w, hname, -⟩ := h
  exact hname.starts

variable {R : α → List Char → List Char → Prop} {closing : Char}

theorem Items.suffix (hR : ∀ a cs t, R a cs t → t <:+ cs) {as : List α}
    (h : Items R closing as cs t) : t <:+ cs := by
  induction h with
  | last hu h hv =>
    exact (((List.suffix_cons closing _).trans hv.suffix).trans (hR _ _ _ h)).trans hu.suffix
  | more hu h hv _ ih =>
    exact (((ih.trans (List.suffix_cons ',' _)).trans hv.suffix).trans (hR _ _ _ h)).trans hu.suffix

theorem Bracketed.suffix (hR : ∀ a cs t, R a cs t → t <:+ cs) {opening : Char} {as : List α}
    (h : Bracketed R opening closing as cs t) : t <:+ cs := by
  obtain ⟨u, rfl, ⟨-, hu⟩ | hu⟩ := h
  · exact ((List.suffix_cons closing t).trans hu.suffix).trans (List.suffix_cons opening u)
  · exact (hu.suffix hR).trans (List.suffix_cons opening u)

theorem Member.suffix {R : Value → List Char → List Char → Prop}
    (hR : ∀ v cs t, R v cs t → t <:+ cs) {m : List Char × Value} (h : Member R m cs t) :
    t <:+ cs := by
  obtain ⟨u, v, w, hname, hu, hv, hm⟩ := h
  exact (((hR _ _ _ hm).trans hv.suffix).trans
    ((List.suffix_cons ':' v).trans hu.suffix)).trans hname.suffix

theorem Reads.suffix {depth : Nat} {v : Value} (h : Reads depth v cs t) : t <:+ cs := by
  induction depth generalizing v cs t with
  | zero => exact h.elim
  | succ depth ih =>
    cases v with
    | literal l =>
      obtain rfl : cs = l.name ++ t := h
      exact List.suffix_append _ _
    | number token =>
      obtain ⟨-, rfl⟩ := h
      exact List.suffix_append _ _
    | string s => exact Quoted.suffix h
    | array vs => exact Bracketed.suffix (fun _ _ _ => ih) h
    | object ms =>
      exact Bracketed.suffix (fun _ _ _ hm => hm.suffix fun _ _ _ => ih) h

theorem follows_nil : Follows [] := by
  intro c u h
  cases h

theorem follows_cons (hc : isNumberChar c = false) : Follows (c :: t) := by
  intro d u h
  obtain ⟨rfl, -⟩ := List.cons.inj h
  exact hc

theorem Spans.follows (h : Space cs t) (ht : Follows t) : Follows cs := by
  obtain ⟨w, hw, rfl⟩ := h
  cases w with
  | nil => exact ht
  | cons c w =>
    apply follows_cons
    exact isSpace_ne (hw c (by simp))

variable {item : List Char → Option (α × List Char)} {n : Nat}

/-- The reader finds the items that the grammar derives, if it finds each item that is
no longer than the text. -/
theorem items_complete (hclosing : isClosing closing = true)
    (hstarts : ∀ a cs t, R a cs t → Starts cs) (hsuffix : ∀ a cs t, R a cs t → t <:+ cs)
    (hitem : ∀ a cs t, R a cs t → Follows t → cs.length ≤ n → item cs = some (a, t))
    {as : List α} (h : Items R closing as cs t) {fuel : Nat} (hfuel : cs.length ≤ fuel)
    (hn : cs.length ≤ n) : items item closing fuel cs = some (as, t) := by
  obtain ⟨hspace, hnumber, hcomma⟩ := isClosing_ne hclosing
  -- one item, with what follows it beginning with `d`
  have hone : ∀ {a cs u v d rest}, Space cs u → R a u v → Space v (d :: rest) →
      isNumberChar d = false → cs.length ≤ n →
      item (skip cs) = some (a, v) ∧ rest.length < cs.length := by
    intro a cs u v d rest hu ha hv hd hn
    obtain ⟨c, w, rfl, hc, -⟩ := hstarts a _ v ha
    have hle := hu.suffix.length_le
    have hlt := (hv.suffix.trans (hsuffix a _ v ha)).length_le
    rw [hu.skip hc]
    exact ⟨hitem a _ v ha (hv.follows (follows_cons hd)) (Nat.le_trans hle hn),
      Nat.lt_of_lt_of_le (Nat.lt_of_succ_le hlt) hle⟩
  induction h generalizing fuel with
  | @last a cs u v t hu ha hv =>
    obtain ⟨hread, hlt⟩ := hone hu ha hv hnumber hn
    obtain ⟨fuel, rfl⟩ := Nat.exists_eq_succ_of_ne_zero (n := fuel) (by omega)
    rw [items, hread]
    simp only [Option.bind_some, hv.expect_of_ne hspace hcomma, hv.expect hspace, Option.map_some]
  | @more a as cs u v rest t hu ha hv _ ih =>
    obtain ⟨hread, hlt⟩ := hone hu ha hv rfl hn
    obtain ⟨fuel, rfl⟩ := Nat.exists_eq_succ_of_ne_zero (n := fuel) (by omega)
    have hrest : items item closing fuel rest = some (as, t) := ih (by omega) (by omega)
    rw [items, hread]
    simp only [Option.bind_some, hv.expect rfl, hrest, Option.map_some]

theorem Items.starts (hstarts : ∀ a cs t, R a cs t → Starts cs) {as : List α}
    (h : Items R closing as cs t) :
    ∃ c u, Space cs (c :: u) ∧ isSpace c = false ∧ isClosing c = false := by
  cases h with
  | last hu ha _ | more hu ha _ _ =>
    obtain ⟨c, w, rfl, hc⟩ := hstarts _ _ _ ha
    exact ⟨c, w, hu, hc⟩

theorem bracketed_complete (hclosing : isClosing closing = true)
    (hstarts : ∀ a cs t, R a cs t → Starts cs) (hsuffix : ∀ a cs t, R a cs t → t <:+ cs)
    (hitem : ∀ a cs t, R a cs t → Follows t → cs.length ≤ n → item cs = some (a, t))
    {opening : Char} {as : List α} (h : Bracketed R opening closing as (opening :: cs) t)
    (hn : cs.length ≤ n) : bracketed item closing cs = some (as, t) := by
  obtain ⟨u, hu, hempty | hitems⟩ := h
  · obtain ⟨-, rfl⟩ := List.cons.inj hu
    obtain ⟨rfl, hspace⟩ := hempty
    rw [bracketed, hspace.expect (isClosing_ne hclosing).1]
  · obtain ⟨-, rfl⟩ := List.cons.inj hu
    obtain ⟨c, w, hspace, hc, hopen⟩ := hitems.starts hstarts
    have hne : c ≠ closing := by
      rintro rfl
      rw [hclosing] at hopen
      cases hopen
    rw [bracketed, hspace.expect_of_ne hc hne]
    exact items_complete hclosing hstarts hsuffix hitem hitems (Nat.le_refl _) hn

theorem member_complete {R : Value → List Char → List Char → Prop}
    {item : List Char → Option (Value × List Char)} (hstarts : ∀ v cs t, R v cs t → Starts cs)
    (hitem : ∀ v cs t, R v cs t → Follows t → cs.length ≤ n → item cs = some (v, t))
    {m : List Char × Value} (h : Member R m cs t) (ht : Follows t) (hn : cs.length ≤ n) :
    member item cs = some (m, t) := by
  obtain ⟨u, v, w, hname, hu, hv, hm⟩ := h
  obtain ⟨c, w', rfl, hc, -⟩ := hstarts _ _ _ hm
  have hle : (c :: w').length ≤ n :=
    Nat.le_trans (hv.suffix.trans
      ((List.suffix_cons ':' v).trans (hu.suffix.trans hname.suffix))).length_le hn
  rw [member, quoted_complete hname]
  simp only [Option.bind_some, hu.expect rfl, hv.skip hc, hitem _ _ _ hm ht hle, Option.map_some]

theorem literal_complete (l : Literal) (t : List Char) :
    literal (l.name ++ t) = some (.literal l, t) := by
  cases l <;> rfl

theorem literal_number {token : List Char} (h : isNumber token = true) (t : List Char) :
    literal (token ++ t) = none := by
  obtain ⟨hne, hall⟩ := isNumber_spans h
  cases token with
  | nil => exact absurd rfl hne
  | cons c token =>
    have hc : isNumberChar c = true := hall c (by simp)
    have hl : ∀ l : Literal, l.name.isPrefixOf (c :: token ++ t) = false := by
      intro l
      have hne : ∀ d, isNumberChar d = false → (d == c) = false := by
        intro d hd
        rw [beq_eq_false_iff_ne]
        rintro rfl
        rw [hc] at hd
        cases hd
      cases l <;> simp only [Literal.name, List.cons_append, List.isPrefixOf, hne 'n' rfl, hne 't' rfl,
        hne 'f' rfl, Bool.false_and]
    simp only [literal, List.find?_cons, hl, List.find?_nil, Option.map_none]

/-- What the grammar derives, the decoder reads. -/
theorem value_complete {depth fuel : Nat} {v : Value} (h : Reads depth v cs t) (ht : Follows t)
    (hfuel : cs.length ≤ fuel) : value fuel cs = some (v, t) := by
  induction depth generalizing fuel v cs t with
  | zero => exact h.elim
  | succ depth ih =>
    obtain ⟨c, u, rfl, -⟩ := h.starts
    obtain ⟨fuel, rfl⟩ := Nat.exists_eq_succ_of_ne_zero (n := fuel) (by
      rw [List.length_cons] at hfuel
      omega)
    have hle : u.length ≤ fuel := Nat.le_of_succ_le_succ hfuel
    rw [value]
    cases v with
    | literal l =>
      have hl : c :: u = l.name ++ t := h
      have hread := literal_complete l t
      rw [← hl] at hread
      rw [hread]
      cases l <;> obtain ⟨rfl, -⟩ := List.cons.inj hl <;> rfl
    | number token =>
      obtain ⟨htoken, hcs⟩ := h
      obtain ⟨hne, hall⟩ := isNumber_spans htoken
      have hc : isNumberChar c = true := by
        cases token with
        | nil => exact absurd rfl hne
        | cons d token => exact (List.cons.inj hcs).1 ▸ hall d (by simp)
      have hother : c ≠ '"' ∧ c ≠ '[' ∧ c ≠ '\x7b' := by
        refine ⟨?_, ?_, ?_⟩ <;> rintro rfl <;> cases hc
      rw [if_neg hother.1, if_neg hother.2.1, if_neg hother.2.2, hcs, literal_number htoken,
        number_complete htoken ht]
      rfl
    | string s =>
      obtain ⟨hs, hcs⟩ := h
      obtain ⟨rfl, rfl⟩ := List.cons.inj hcs
      rw [if_pos rfl, chars_complete hs]
      rfl
    | array vs =>
      have hopen : c = '[' := by
        obtain ⟨w, hcs, -⟩ := h
        exact (List.cons.inj hcs).1
      subst c
      rw [if_neg (by decide), if_pos rfl, bracketed_complete rfl (fun _ _ _ => Reads.starts)
        (fun _ _ _ => Reads.suffix) (fun _ _ _ => ih) h hle]
      rfl
    | object ms =>
      have hopen : c = '\x7b' := by
        obtain ⟨w, hcs, -⟩ := h
        exact (List.cons.inj hcs).1
      subst c
      rw [if_neg (by decide), if_neg (by decide), if_pos rfl,
        bracketed_complete rfl (fun _ _ _ => Member.starts)
          (fun _ _ _ hm => hm.suffix fun _ _ _ => Reads.suffix)
          (fun _ _ _ hm => member_complete (fun _ _ _ => Reads.starts) (fun _ _ _ => ih) hm) h hle]
      rfl

theorem decode_of_text {v : Value} (h : Text v cs) : decode cs = some v := by
  obtain ⟨depth, u, t, hu, hv, ht⟩ := h
  obtain ⟨c, w, rfl, hc, -⟩ := hv.starts
  have hend : skip t = [] := ht.dropWhile_eq
  rw [decode, hu.skip hc, value_complete hv (ht.follows follows_nil) hu.suffix.length_le]
  exact if_pos hend

end Thermometer.Json
