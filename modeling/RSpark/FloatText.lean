import Mathlib.Algebra.Group.Nat.Defs

/- Decimal text of binary floating point numbers: reading with one correct rounding,
   and the shortest positional numeral that reads back to the same bits. -/
namespace FloatText
open Float.Model

inductive Numeral where
  | nan
  | inf (negative : Bool)
  | decimal (negative : Bool) (digits : Nat) (exponent : Int)
  deriving DecidableEq, Repr

def takeDigits : List Char → Nat → Nat → Nat × Nat × List Char
  | c :: cs, value, count =>
      if c.isDigit then takeDigits cs (10 * value + (c.toNat - 48)) (count + 1)
      else (value, count, c :: cs)
  | [], value, count => (value, count, [])

def takeSign : List Char → Bool × List Char
  | '-' :: cs => (true, cs)
  | '+' :: cs => (false, cs)
  | cs => (false, cs)

def readExponent : List Char → Option Int
  | [] => some 0
  | c :: cs =>
      if c = 'e' ∨ c = 'E' then
        let (negative, cs) := takeSign cs
        match takeDigits cs 0 0 with
        | (_, 0, _) => none
        | (n, _, []) => some (if negative then -(n : Int) else n)
        | (_, _, _ :: _) => none
      else none

def readDecimal (negative : Bool) (cs : List Char) : Option Numeral :=
  let (whole, wholeCount, cs) := takeDigits cs 0 0
  let (digits, fracCount, cs) := match cs with
    | '.' :: cs => takeDigits cs whole 0
    | cs => (whole, 0, cs)
  if wholeCount + fracCount = 0 then none
  else (readExponent cs).map fun e => .decimal negative digits (e - fracCount)

def lowerAscii (cs : List Char) : List Char := cs.map Char.toLower

def readNumeral (s : String) : Option Numeral :=
  let (negative, cs) := takeSign s.toList
  if lowerAscii cs = "inf".toList ∨ lowerAscii cs = "infinity".toList then some (.inf negative)
  else if lowerAscii cs = "nan".toList then some .nan
  else readDecimal negative cs

def nan64 : Float := .ofModel (.pack .notANumber)
def infinity64 (negative : Bool) : Float :=
  .ofModel (.pack (.infinity (if negative then .negative else .positive)))
def scientific64 (digits : Nat) (exponent : Int) : Float :=
  .ofModel (.ofScientific digits exponent)

def nan32 : Float32 := .ofModel (.pack .notANumber)
def infinity32 (negative : Bool) : Float32 :=
  .ofModel (.pack (.infinity (if negative then .negative else .positive)))
def scientific32 (digits : Nat) (exponent : Int) : Float32 :=
  .ofModel (.ofScientific digits exponent)

def parse64 (s : String) : Option Float :=
  (readNumeral s).map fun
    | .nan => nan64
    | .inf negative => infinity64 negative
    | .decimal negative digits exponent =>
        if negative then -scientific64 digits exponent else scientific64 digits exponent

def parse32 (s : String) : Option Float32 :=
  (readNumeral s).map fun
    | .nan => nan32
    | .inf negative => infinity32 negative
    | .decimal negative digits exponent =>
        if negative then -scientific32 digits exponent else scientific32 digits exponent

def widen (x : Float32) : Float :=
  match x.toModel.unpack with
  | .finite sign m e _ => .ofModel (.pack (.round Format.binary64 sign m e))
  | special => .ofModel (.pack special)

/-- `as f32` rounds to the nearest, ties to even. -/
def narrow (x : Float) : Float32 :=
  match x.toModel.unpack with
  | .finite sign m e _ => .ofModel (.pack (.round Format.binary32 sign m e))
  | special => .ofModel (.pack special)

def leadingZeros : Nat → Nat → Nat → Nat
  | 0, _, _ => 0
  | fuel + 1, num, den => if den ≤ 10 * num then 0 else leadingZeros fuel (10 * num) den + 1

def pointPosition (num den : Nat) : Int :=
  if den ≤ num then (Nat.toDigits 10 (num / den)).length
  else -(leadingZeros 400 num den : Int)

def stripZeros : Nat → Nat → Int → Nat × Int
  | 0, digits, exponent => (digits, exponent)
  | fuel + 1, digits, exponent =>
      if digits ≠ 0 ∧ digits % 10 = 0 then stripZeros fuel (digits / 10) (exponent + 1)
      else (digits, exponent)

def shortest (readsBack : Nat → Int → Bool) (num den : Nat) (p : Int) :
    Nat → Nat → Nat × Int
  | 0, count => (0, p - count)
  | fuel + 1, count =>
      let scale := (count : Int) - p
      let n := num * 10 ^ scale.toNat
      let d := den * 10 ^ (-scale).toNat
      let low := n / d
      let lowFits := readsBack low (-scale)
      let highFits := readsBack (low + 1) (-scale)
      let lowCloser := 2 * (n % d) < d ∨ (2 * (n % d) = d ∧ low % 2 = 0)
      if lowFits ∧ (¬ highFits ∨ lowCloser) then stripZeros 20 low (-scale)
      else if highFits then stripZeros 20 (low + 1) (-scale)
      else shortest readsBack num den p fuel (count + 1)

def positional (digits : Nat) (exponent : Int) : List Char :=
  let ds := Nat.toDigits 10 digits
  if 0 ≤ exponent then ds ++ List.replicate exponent.toNat '0'
  else
    let frac := (-exponent).toNat
    if frac < ds.length then ds.take (ds.length - frac) ++ '.' :: ds.drop (ds.length - frac)
    else '0' :: '.' :: List.replicate (frac - ds.length) '0' ++ ds

def printUnpacked (readsBack : Nat → Int → Bool) : UnpackedFloat → String
  | .notANumber => "NaN"
  | .infinity .positive => "inf"
  | .infinity .negative => "-inf"
  | .zero .positive => "0"
  | .zero .negative => "-0"
  | .finite sign m e _ =>
      let num := m * 2 ^ e.toNat
      let den := 2 ^ (-e).toNat
      let (digits, exponent) := shortest readsBack num den (pointPosition num den) 17 1
      let text := positional digits exponent
      String.ofList (match sign with | .positive => text | .negative => '-' :: text)

def print64 (x : Float) : String :=
  printUnpacked (fun d e => (scientific64 d e).toBits = x.toBits &&& 0x7fffffffffffffff)
    x.toModel.unpack

def print32 (x : Float32) : String :=
  printUnpacked (fun d e => (scientific32 d e).toBits = x.toBits &&& 0x7fffffff)
    x.toModel.unpack

example : (parse64 "-12.50e1").map print64 = some "-125" := by decide +kernel

end FloatText
