import Mathlib.Algebra.Group.Int.Defs
import Pintos.Lib.Text

/-!
# Lib/Printf — `__vprintf`, byte by byte

The cursor that moves along the format, the work buffer of 64 bytes, and the function that gets the
output one character at a time.

The format is the memory that may be read from the cursor on, its null character included; a cursor
that moves past its end stops the call. Arguments are words on the stack, and there are always more
of them. An `int` wraps around.
-/

namespace Pintos.Printf

open Text

/-- How a call does not return. -/
inductive Stop where
  /-- a byte behind the format is read -/
  | overrun
  /-- a byte outside of the work buffer is written -/
  | smashed
  /-- a message of `__vprintf` has a conversion that it does not know -/
  | nested
  deriving DecidableEq, Repr

def toInt (n : ℤ) : ℤ := n.bmod (2 ^ 32)

/-- The type of an argument. -/
inductive ArgType
  | char | short | int | intmax | long | longlong | ptrdifft | sizet

/-- The number of bits of an argument that count. -/
def ArgType.bits : ArgType → ℕ
  | char => 8
  | short => 16
  | int | long | ptrdifft | sizet => 32
  | intmax | longlong => 64

/-- `struct printf_conversion`; a precision of -1 is none. -/
structure PrintfConversion where
  minus : Bool := false
  plus : Bool := false
  space : Bool := false
  pound : Bool := false
  zero : Bool := false
  group : Bool := false
  width : ℤ := 0
  precision : ℤ := -1
  type : ArgType := .int

/-- What a call is given besides the format: the words of its `va_list`, and memory. -/
structure Env where
  arg : ℕ → BitVec 32
  mem : BitVec 32 → UInt8

/-! ## Parsing -/

/-- `*format`. -/
def peek : List UInt8 → Except Stop UInt8
  | [] => .error .overrun
  | ch :: _ => .ok ch

/-- `isdigit`. -/
def isDigit (ch : UInt8) : Bool := ascii '0' ≤ ch && ch ≤ ascii '9'

def parseFlags (c : PrintfConversion) : List UInt8 → Except Stop (PrintfConversion × List UInt8)
  | [] => .error .overrun
  | ch :: format =>
    if ch = ascii '-' then parseFlags { c with minus := true } format
    else if ch = ascii '+' then parseFlags { c with plus := true } format
    else if ch = ascii ' ' then parseFlags { c with space := true } format
    else if ch = ascii '#' then parseFlags { c with pound := true } format
    else if ch = ascii '0' then parseFlags { c with zero := true } format
    else if ch = ascii '\'' then parseFlags { c with group := true } format
    else .ok (c, ch :: format)

/-- The loop over the digits of a width or precision. -/
def parseNumber (n : ℤ) : List UInt8 → Except Stop (ℤ × List UInt8)
  | [] => .error .overrun
  | ch :: format =>
    if isDigit ch then parseNumber (toInt (n * 10 + (ch.toNat - 48))) format
    else .ok (n, ch :: format)

/-- A number, or a `*` for the next argument. -/
def parseStarred (e : Env) (format : List UInt8) (a : ℕ) : Except Stop (ℤ × List UInt8 × ℕ) := do
  let ch ← peek format
  if ch = ascii '*' then return ((e.arg a).toInt, format.tail, a + 1)
  else do
    let (n, format) ← parseNumber 0 format
    return (n, format, a)

def parsePrecision (e : Env) (format : List UInt8) (a : ℕ) : Except Stop (ℤ × List UInt8 × ℕ) := do
  let ch ← peek format
  if ch = ascii '.' then do
    let (n, format, a) ← parseStarred e format.tail a
    return (if n < 0 then -1 else n, format, a)
  else return (-1, format, a)

def parseType (format : List UInt8) : Except Stop (ArgType × List UInt8) := do
  let ch ← peek format
  if ch = ascii 'h' then do
    let ch ← peek format.tail
    return if ch = ascii 'h' then (.char, format.tail.tail) else (.short, format.tail)
  else if ch = ascii 'j' then return (.intmax, format.tail)
  else if ch = ascii 'l' then do
    let ch ← peek format.tail
    return if ch = ascii 'l' then (.longlong, format.tail.tail) else (.long, format.tail)
  else if ch = ascii 't' then return (.ptrdifft, format.tail)
  else if ch = ascii 'z' then return (.sizet, format.tail)
  else return (.int, format)

/-- `parse_conversion`; `a` words have been taken from the `va_list`. -/
def parseConversion (e : Env) (format : List UInt8) (a : ℕ) :
    Except Stop (PrintfConversion × List UInt8 × ℕ) := do
  let (c, format) ← parseFlags {} format
  let c := if c.minus then { c with zero := false } else c
  let c := if c.plus then { c with space := false } else c
  let (width, format, a) ← parseStarred e format a
  let c : PrintfConversion := { c with width := width }
  let c := if c.width < 0 then { c with width := toInt (-c.width), minus := true } else c
  let (precision, format, a) ← parsePrecision e format a
  let c : PrintfConversion := { c with precision := precision }
  let c := if 0 ≤ c.precision then { c with zero := false } else c
  let (type, format) ← parseType format
  return ({ c with type := type }, format, a)

/-! ## Output -/

/-- `struct integer_base`; `x` is `none` where the source has 0. -/
structure IntegerBase where
  base : ℕ
  digits : List UInt8
  x : Option UInt8
  group : ℕ

def decimalDigits : List UInt8 := ['0', '1', '2', '3', '4', '5', '6', '7', '8', '9'].map ascii

/-- `base_d`. -/
def baseD : IntegerBase := ⟨10, decimalDigits, none, 3⟩

/-- `base_o`. -/
def baseO : IntegerBase := ⟨8, decimalDigits.take 8, none, 3⟩

/-- `base_x`. -/
def baseX : IntegerBase :=
  ⟨16, decimalDigits ++ ['a', 'b', 'c', 'd', 'e', 'f'].map ascii, some (ascii 'x'), 4⟩

/-- `base_X`. -/
def baseCapitalX : IntegerBase :=
  ⟨16, decimalDigits ++ ['A', 'B', 'C', 'D', 'E', 'F'].map ascii, some (ascii 'X'), 4⟩

section

variable {σ : Type} (output : UInt8 → σ → σ)

/-- `output_dup`. -/
def outputDup (ch : UInt8) : ℕ → σ → σ
  | 0, aux => aux
  | cnt + 1, aux => outputDup ch cnt (output ch aux)

/-- Characters are put out one by one. -/
def outputAll : List UInt8 → σ → σ
  | [], aux => aux
  | ch :: text, aux => outputAll text (output ch aux)

/-- `*cp++ = ch`, where `buf` is what is before `cp` in the work buffer. -/
def push (buf : List UInt8) (ch : UInt8) : Except Stop (List UInt8) :=
  if buf.length < 64 then .ok (buf ++ [ch]) else .error .smashed

/-- The same under an `if`. -/
def pushIf (p : Bool) (buf : List UInt8) (ch : UInt8) : Except Stop (List UInt8) :=
  if p then push buf ch else .ok buf

/-- The loop over the digits of `value`, which has no more than 64 of them. -/
def digitsLoop (b : IntegerBase) (c : PrintfConversion) :
    ℕ → ℕ → ℕ → List UInt8 → Except Stop (List UInt8)
  | 0, _, _, buf => .ok buf
  | turns + 1, value, digitCnt, buf =>
    if 0 < value then do
      let buf ← pushIf (c.group && decide (0 < digitCnt) && digitCnt % b.group == 0) buf (ascii ',')
      let buf ← push buf (b.digits.getD (value % b.base) 0)
      digitsLoop b c turns (value / b.base) (digitCnt + 1) buf
    else .ok buf

/-- The loop that appends zeros, which goes on for 63 bytes at most. -/
def zerosLoop (precision : ℤ) : ℕ → List UInt8 → Except Stop (List UInt8)
  | 0, buf => .ok buf
  | turns + 1, buf =>
    if (buf.length : ℤ) < precision ∧ buf.length < 63 then do
      let buf ← push buf (ascii '0')
      zerosLoop precision turns buf
    else .ok buf

/-- The sign character, if any. -/
def signOf (isSigned negative : Bool) (c : PrintfConversion) : Option UInt8 :=
  if isSigned then
    if c.plus then some (if negative then ascii '-' else ascii '+')
    else if c.space then some (if negative then ascii '-' else ascii ' ')
    else if negative then some (ascii '-')
    else none
  else none

/-- The rendered precision. -/
def PrintfConversion.rendered (c : PrintfConversion) : ℤ := if c.precision < 0 then 1 else c.precision

/-- The work buffer of `format_integer`, up to `cp`. -/
def workBuffer (value : ℕ) (b : IntegerBase) (c : PrintfConversion) : Except Stop (List UInt8) := do
  let buf ← digitsLoop b c 64 value 0 []
  let buf ← zerosLoop c.rendered 64 buf
  pushIf (c.pound && b.base == 8 && (buf.isEmpty || buf.getLast? != some (ascii '0'))) buf (ascii '0')

/-- `format_integer`: the digits, the zeros of the precision, then `x`, sign and padding. -/
def formatInteger (value : ℕ) (isSigned negative : Bool) (b : IntegerBase) (c : PrintfConversion)
    (aux : σ) : Except Stop σ := do
  let sign := signOf isSigned negative c
  let x := if c.pound && value != 0 then b.x else none
  let buf ← workBuffer value b c
  let padCnt := toInt (c.width - buf.length - (if x.isSome then 2 else 0) - (if sign.isSome then 1 else 0))
  let padCnt := if padCnt < 0 then 0 else padCnt
  let aux := if !c.minus && !c.zero then outputDup output (ascii ' ') padCnt.toNat aux else aux
  let aux := sign.elim aux fun sign => output sign aux
  let aux := x.elim aux fun x => output x (output (ascii '0') aux)
  let aux := if c.zero then outputDup output (ascii '0') padCnt.toNat aux else aux
  let aux := outputAll output buf.reverse aux
  return if c.minus then outputDup output (ascii ' ') padCnt.toNat aux else aux

/-- `strnlen`, with `length` characters seen. -/
def strnlen (mem : BitVec 32 → UInt8) (string : BitVec 32) : ℕ → ℕ → ℕ
  | 0, length => length
  | left + 1, length =>
    if mem (string + BitVec.ofNat 32 length) ≠ 0 then strnlen mem string left (length + 1) else length

/-- `format_string`, where `string` is what is to be put out of the string. -/
def formatString (string : List UInt8) (length : ℤ) (c : PrintfConversion) (aux : σ) : σ :=
  let aux := if length < c.width ∧ c.minus = false
    then outputDup output (ascii ' ') (c.width - length).toNat aux else aux
  let aux := outputAll output string aux
  if length < c.width ∧ c.minus = true
    then outputDup output (ascii ' ') (c.width - length).toNat aux else aux

end

/-! ## Arguments -/

/-- The number of words of an argument. -/
def argWords : ArgType → ℕ
  | .intmax | .longlong => 2
  | _ => 1

/-- The bits of an argument: a second word is the upper half. -/
def argBits (e : Env) (type : ArgType) (a : ℕ) : BitVec 64 :=
  if argWords type = 2 then e.arg (a + 1) ++ e.arg a else (e.arg a).setWidth 64

/-- A signed argument; of a `size_t`, the upper half of the range is negative. -/
def signedArg (e : Env) (type : ArgType) (a : ℕ) : ℤ :=
  ((argBits e type a).toNat : ℤ).bmod (2 ^ type.bits)

def unsignedArg (e : Env) (type : ArgType) (a : ℕ) : ℕ := (argBits e type a).toNat % 2 ^ type.bits

/-- `uintmax_t` from the `intmax_t` whose absolute value is taken. -/
def absolute (value : ℤ) : ℕ := ((if value < 0 then -value else value) % 2 ^ 64).toNat

def nullText : List UInt8 := ['(', 'n', 'u', 'l', 'l', ')'].map ascii

/-- A string of memory, `length` characters of it. -/
def stringAt (mem : BitVec 32 → UInt8) (string : BitVec 32) (length : ℕ) : List UInt8 :=
  (List.range length).map fun i => mem (string + BitVec.ofNat 32 i)

/-! ## `__vprintf` -/

section

variable {σ : Type} (output : UInt8 → σ → σ) (e : Env)

/-- The base of an unsigned conversion. -/
def unsignedBase (letter : UInt8) : IntegerBase :=
  if letter = ascii 'o' then baseO
  else if letter = ascii 'u' then baseD
  else if letter = ascii 'x' then baseX
  else baseCapitalX

/-- The `switch` over the conversions: where the next argument is, and the data of the output
function. `unknown` is for any other letter. -/
def convert (unknown : Bool → UInt8 → σ → Except Stop σ) (letter : UInt8) (c : PrintfConversion) (a : ℕ)
    (aux : σ) : Except Stop (ℕ × σ) :=
  if letter ∈ ['d', 'i'].map ascii then do
    let value := signedArg e c.type a
    let aux ← formatInteger output (absolute value) true (value < 0) baseD c aux
    return (a + argWords c.type, aux)
  else if letter ∈ ['o', 'u', 'x', 'X'].map ascii then do
    let aux ← formatInteger output (unsignedArg e c.type a) false false (unsignedBase letter) c aux
    return (a + argWords c.type, aux)
  else if letter = ascii 'c' then
    return (a + 1, formatString output [((e.arg a).toNat % 2 ^ 8).toUInt8] 1 c aux)
  else if letter = ascii 's' then
    let maxlen := (c.precision % 2 ^ 32).toNat
    let s := e.arg a
    -- a null pointer is `"(null)"`
    if s = 0 then
      let text := nullText.take maxlen
      return (a + 1, formatString output text text.length c aux)
    else
      let length := toInt (strnlen e.mem s maxlen 0)
      return (a + 1, formatString output (stringAt e.mem s length.toNat) length c aux)
  else if letter = ascii 'p' then do
    let c := { c with minus := false, plus := false, space := false, pound := true, zero := false, group := false }
    let aux ← formatInteger output (e.arg a).toNat false false baseX c aux
    return (a + 1, aux)
  else if letter ∈ ['f', 'e', 'E', 'g', 'G', 'n'].map ascii then do
    let aux ← unknown true letter aux
    return (a, aux)
  else do
    let aux ← unknown false letter aux
    return (a, aux)

/-- The loop of `__vprintf`; every turn takes at least one byte of the format. -/
def vprintfLoop (unknown : Bool → UInt8 → σ → Except Stop σ) : ℕ → List UInt8 → ℕ → σ → Except Stop σ
  | 0, _, _, _ => .error .overrun
  | turns + 1, format, a, aux => do
    let ch ← peek format
    if ch = 0 then return aux
    else if ch ≠ ascii '%' then vprintfLoop unknown turns format.tail a (output ch aux)
    else do
      let format := format.tail
      let ch ← peek format
      if ch = ascii '%' then vprintfLoop unknown turns format.tail a (output (ascii '%') aux)
      else do
        let (c, format, a) ← parseConversion e format a
        let letter ← peek format
        let (a, aux) ← convert output e unknown letter c a aux
        vprintfLoop unknown turns format.tail a aux

/-- The messages for a letter, with their null characters. -/
def unknownText (inKernel : Bool) : List UInt8 :=
  (if inKernel then "<<no %%%c in kernel>>" else "<<no %%%c conversion>>").toList.map ascii ++ [0]

/-- `__printf` of such a message; the letter is its argument. -/
def printfUnknown (inKernel : Bool) (letter : UInt8) (aux : σ) : Except Stop σ :=
  let text := unknownText inKernel
  vprintfLoop output ⟨fun _ => BitVec.ofNat 32 letter.toNat, fun _ => 0⟩
    (fun _ _ _ => .error .nested) text.length text 0 aux

/-- `__vprintf`. -/
def vprintf (format : List UInt8) (aux : σ) : Except Stop σ :=
  vprintfLoop output e (printfUnknown output) format.length format 0 aux

end

end Pintos.Printf
