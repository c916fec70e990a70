import Mathlib.Data.List.Basic

namespace Thermometer.Json

inductive Literal where
  | null | true | false
  deriving DecidableEq

def Literal.name : Literal → List Char
  | .null => ['n', 'u', 'l', 'l']
  | .true => ['t', 'r', 'u', 'e']
  | .false => ['f', 'a', 'l', 's', 'e']

/-- A JSON value. Numbers and strings are kept as they are written. -/
inductive Value where
  | literal (l : Literal)
  | number (token : List Char)
  | string (chars : List Char)
  | array (elements : List Value)
  | object (members : List (List Char × Value))

def isSpace (c : Char) : Bool := c = ' ' || c = '\t' || c = '\n' || c = '\r'

def isNumberChar (c : Char) : Bool :=
  c.isDigit || c = '-' || c = '+' || c = '.' || c = 'e' || c = 'E'

/-- What is left behind a digit or more. -/
def digits : List Char → Option (List Char)
  | [] => none
  | c :: cs => if c.isDigit then some (cs.dropWhile Char.isDigit) else none

def optional (p : Char → Bool) (part : List Char → Option (List Char)) :
    List Char → Option (List Char)
  | [] => some []
  | c :: cs => if p c then part cs else some (c :: cs)

def minus (cs : List Char) : Option (List Char) := optional (· = '-') some cs

/-- What is left behind the integer part, which has no leading zero. -/
def int : List Char → Option (List Char)
  | [] => none
  | c :: cs => if c = '0' then some cs else digits (c :: cs)

def frac (cs : List Char) : Option (List Char) := optional (· = '.') digits cs

def sign (cs : List Char) : Option (List Char) := optional (fun c => c = '-' || c = '+') some cs

def exp (cs : List Char) : Option (List Char) :=
  optional (fun c => c = 'e' || c = 'E') (fun cs => (sign cs).bind digits) cs

/-- The token is a number: a minus sign or none, an integer, a fraction or none, and
an exponent or none. -/
def isNumber (token : List Char) : Bool :=
  (((minus token).bind int).bind frac).bind exp = some []

def isHex (c : Char) : Bool :=
  c.isDigit || ('a' ≤ c && c ≤ 'f') || ('A' ≤ c && c ≤ 'F')

def isPlain (c : Char) : Bool := ' ' ≤ c && c ≠ '"' && c ≠ '\\'

def isEscape (c : Char) : Bool :=
  c = '"' || c = '\\' || c = '/' || c = 'b' || c = 'f' || c = 'n' || c = 'r' || c = 't'

inductive Chars : List Char → Prop where
  | nil : Chars []
  | plain {c : Char} {cs : List Char} (hc : isPlain c = true) (h : Chars cs) : Chars (c :: cs)
  | escape {c : Char} {cs : List Char} (hc : isEscape c = true) (h : Chars cs) :
      Chars ('\\' :: c :: cs)
  | unicode {u v w x : Char} {cs : List Char}
      (hu : (isHex u && isHex v && isHex w && isHex x) = true) (h : Chars cs) :
      Chars ('\\' :: 'u' :: u :: v :: w :: x :: cs)

def Spans (p : Char → Bool) (cs t : List Char) : Prop := ∃ w, (∀ c ∈ w, p c = true) ∧ cs = w ++ t

abbrev Space (cs t : List Char) : Prop := Spans isSpace cs t

def Quoted (s cs t : List Char) : Prop := Chars s ∧ cs = '"' :: (s ++ '"' :: t)

variable {α : Type}

/-- One item or more with commas between them, and the closing bracket. -/
inductive Items (R : α → List Char → List Char → Prop) (closing : Char) :
    List α → List Char → List Char → Prop where
  | last {a : α} {cs u v t : List Char} (hu : Space cs u) (h : R a u v)
      (hv : Space v (closing :: t)) : Items R closing [a] cs t
  | more {a : α} {as : List α} {cs u v rest t : List Char} (hu : Space cs u) (h : R a u v)
      (hv : Space v (',' :: rest)) (hrest : Items R closing as rest t) :
      Items R closing (a :: as) cs t

def Bracketed (R : α → List Char → List Char → Prop) (opening closing : Char) (as : List α)
    (cs t : List Char) : Prop :=
  ∃ u, cs = opening :: u ∧ (as = [] ∧ Space u (closing :: t) ∨ Items R closing as u t)

def Member (R : Value → List Char → List Char → Prop) (m : List Char × Value)
    (cs t : List Char) : Prop :=
  ∃ u v w, Quoted m.1 cs u ∧ Space u (':' :: v) ∧ Space v w ∧ R m.2 w t

/-- The first text begins with the value, nested less than `depth` deep, and the
second is what is left behind it. -/
def Reads : Nat → Value → List Char → List Char → Prop
  | 0, _, _, _ => False
  | _ + 1, .literal l, cs, t => cs = l.name ++ t
  | _ + 1, .number token, cs, t => isNumber token = true ∧ cs = token ++ t
  | _ + 1, .string s, cs, t => Quoted s cs t
  | depth + 1, .array vs, cs, t => Bracketed (Reads depth) '[' ']' vs cs t
  | depth + 1, .object ms, cs, t => Bracketed (Member (Reads depth)) '\x7b' '\x7d' ms cs t

/-- The text is the value with space around it. -/
def Text (v : Value) (cs : List Char) : Prop :=
  ∃ depth u t, Space cs u ∧ Reads depth v u t ∧ Space t []

end Thermometer.Json
