/-!
The unquoted values of TOML: truth values, numbers, dates and times. They are
recognized but not evaluated, apart from their ranges.
-/

namespace Keyring.Toml

/-- Digits of a number, where single underscores may stand between digits. -/
def isDigits (isDigit : Char → Bool) : List Char → Bool
  | [] => false
  | [c] => isDigit c
  | '_' :: _ => false
  | c :: '_' :: rest => isDigit c && isDigits isDigit rest
  | c :: rest => isDigit c && isDigits isDigit rest

/-- The value of digits of any base up to sixteen; underscores are skipped. -/
def digitsValue (base : Nat) (digits : List Char) : Nat :=
  (digits.filter (· ≠ '_')).foldl
    (fun n c =>
      let d := if c.isDigit then c.toNat - 0x30 else c.toLower.toNat - 0x57
      base * n + d) 0

def isHexDigit (c : Char) : Bool := c.isDigit || ('a' ≤ c.toLower && c.toLower ≤ 'f')

def isOctalDigit (c : Char) : Bool := '0' ≤ c && c ≤ '7'

def isBinaryDigit (c : Char) : Bool := c = '0' || c = '1'

/-- What is left behind a sign, and whether it is a minus. -/
def splitSign : List Char → Bool × List Char
  | '+' :: rest => (false, rest)
  | '-' :: rest => (true, rest)
  | cs => (false, cs)

def isDecimal (digits : List Char) : Bool :=
  isDigits Char.isDigit digits && (digits.head? ≠ some '0' || digits.length = 1)

/-- A whole number that fits into sixty-four bits with a sign. -/
def isInteger (cs : List Char) : Bool :=
  match cs with
  | '0' :: 'x' :: digits => isDigits isHexDigit digits && digitsValue 16 digits < Nat.pow 2 63
  | '0' :: 'o' :: digits => isDigits isOctalDigit digits && digitsValue 8 digits < Nat.pow 2 63
  | '0' :: 'b' :: digits =>
    isDigits isBinaryDigit digits && digitsValue 2 digits < Nat.pow 2 63
  | _ =>
    let (negative, digits) := splitSign cs
    isDecimal digits && digitsValue 10 digits < Nat.pow 2 63 + negative.toNat

def isExponent (cs : List Char) : Bool :=
  isDigits Char.isDigit (splitSign cs).2

def exponentValue (cs : List Char) : Int :=
  let (negative, digits) := splitSign cs
  if negative then -(digitsValue 10 digits : Int) else digitsValue 10 digits

/-- The least number that a floating point number of sixty-four bits rounds to
infinity: halfway between the largest finite one and the next power of two. -/
def floatLimit : Nat := (Nat.pow 2 54 - 1) * Nat.pow 2 970

/-- Whether `n * 10 ^ exponent` is not below the limit. The limit has 309 digits,
so a number with more digits is above it and one with fewer is below. -/
def reachesFloatLimit (n : Nat) (exponent : Int) : Bool :=
  let size := (Nat.toDigits 10 n).length + exponent
  n ≠ 0 && (309 < size ||
    (size = 309 && floatLimit * Nat.pow 10 (-exponent).toNat ≤ n * Nat.pow 10 exponent.toNat))

/-- A number with a fraction, an exponent or both, or one of the special
values. A number that is too large is refused, but not its negative. -/
def isFloat (cs : List Char) : Bool :=
  let (negative, body) := splitSign cs
  if body = ['i', 'n', 'f'] || body = ['n', 'a', 'n'] then true
  else
    let (mantissa, exponent) := body.span (fun c => c ≠ 'e' && c ≠ 'E')
    let (whole, fraction) := mantissa.span (· ≠ '.')
    isDecimal whole && (fraction ≠ [] || exponent ≠ []) &&
      (fraction = [] || isDigits Char.isDigit fraction.tail) &&
      (exponent = [] || isExponent exponent.tail) &&
      (negative || !reachesFloatLimit (digitsValue 10 (whole ++ fraction.tail))
        (exponentValue exponent.tail - (fraction.tail.filter (· ≠ '_')).length))

def fixedDigits? (count : Nat) (cs : List Char) : Option Nat :=
  if cs.length = count && cs.all Char.isDigit then some (digitsValue 10 cs) else none

def daysInMonth (year month : Nat) : Nat :=
  if month = 2 then
    if year % 4 = 0 && (year % 100 ≠ 0 || year % 400 = 0) then 29 else 28
  else if month = 4 || month = 6 || month = 9 || month = 11 then 30
  else 31

def isDate : List Char → Bool
  | [a, b, c, d, '-', e, f, '-', g, h] =>
    match fixedDigits? 4 [a, b, c, d], fixedDigits? 2 [e, f], fixedDigits? 2 [g, h] with
    | some year, some month, some day =>
      1 ≤ month && month ≤ 12 && 1 ≤ day && day ≤ daysInMonth year month
    | _, _, _ => false
  | _ => false

def isHourMinute : List Char → Bool
  | [a, b, ':', c, d] =>
    match fixedDigits? 2 [a, b], fixedDigits? 2 [c, d] with
    | some hour, some minute => hour ≤ 23 && minute ≤ 59
    | _, _ => false
  | _ => false

/-- A time: hours, minutes and seconds, which may have a fraction and may be a
leap second. -/
def isTime (cs : List Char) : Bool :=
  match cs.drop 5 with
  | ':' :: a :: b :: fraction =>
    let seconds? := fixedDigits? 2 [a, b]
    isHourMinute (cs.take 5) && seconds?.any (· ≤ 60) &&
      (fraction = [] ||
        (fraction.head? = some '.' && fraction.tail ≠ [] && fraction.tail.all Char.isDigit))
  | _ => false

/-- A time that may carry the distance from universal time. -/
def isZonedTime (cs : List Char) : Bool :=
  let (time, zone) := cs.span (fun c => c ≠ 'Z' && c ≠ 'z' && c ≠ '+' && c ≠ '-')
  isTime time &&
    match zone with
    | [] => true
    | '+' :: distance => isHourMinute distance
    | '-' :: distance => isHourMinute distance
    | _ :: more => more = []

/-- A date, a time, or both with a `T` or a space between them. -/
def isMoment (cs : List Char) : Bool :=
  isDate cs || isTime cs ||
    (isDate (cs.take 10) &&
      match cs.drop 10 with
      | c :: time => (c = 'T' || c = 't' || c = ' ') && isZonedTime time
      | [] => false)

def isScalar (cs : List Char) : Bool :=
  cs = "true".toList || cs = "false".toList || isInteger cs || isFloat cs || isMoment cs

def isScalarChar (c : Char) : Bool :=
  c.isAlphanum || c = '+' || c = '-' || c = '_' || c = '.' || c = ':'

/-- The characters of an unquoted value and what is left behind them. A time may
follow a date behind a space. -/
def spanScalar (cs : List Char) : List Char × List Char :=
  let (token, rest) := cs.span isScalarChar
  match rest with
  | ' ' :: c :: more =>
    if isDate token && c.isDigit then
      let (time, rest) := (c :: more).span isScalarChar
      (token ++ ' ' :: time, rest)
    else (token, rest)
  | _ => (token, rest)

end Keyring.Toml
