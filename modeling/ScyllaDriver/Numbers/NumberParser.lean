import ScyllaDriver.Numbers.Gmp

/-!
# Number text: the parsers and printers of `NumberParser.c`

Every parser receives a `zend_string`, that is a byte string with its own
length, and starts with `const int in_len = (int) ZSTR_LEN(zstr)`. The
conversion keeps 32 bits, so `inLen` is an `Int` that agrees with the length
only below `2 ^ 31`; the model keeps it apart from the length everywhere the
source does.

A parser that fails throws. `Thrown` keeps the exception class and the format
text of the message. `fatal` is not an exception: it stands for a request
that ends inside the allocator.

The printers never fail. Their `memmove` calls edit one buffer in place; the
model states the bytes the buffer holds at the end.
-/

namespace ScyllaDriver
namespace Numbers

open Positional CString

/-- What a parser raises instead of returning a number. -/
inductive Thrown where
  | invalidArgument (format : String)
  | range (format : String)
  | fatal (message : String)
deriving DecidableEq

/-- `(int) ZSTR_LEN(zstr)`. -/
def inLen (s : Bytes) : Int :=
  toInt32 s.length

/-- Output parameters of `prepare_string_conversion`. -/
structure Prepared where
  pos : Nat
  negative : Bool
  base : Nat
deriving DecidableEq

/-- `prepare_string_conversion`: `none` is a plain `false`, which the callers
turn into their own exception. -/
def prepareStringConversion (s : Bytes) : Except Thrown (Option Prepared) :=
  if inLen s < 0 ∨ inLen s ≠ strlen s then
    .error (.invalidArgument "Value of %d bytes contains a NUL byte at offset %zu")
  else
    let text := s.take (inLen s).toNat
    let point := (text.takeWhile isspace).length
    let negative := byteAt text point = chr '-'
    let signed := byteAt text point = chr '+' ∨ negative
    let afterSign := if signed then point + 1 else point
    let binary := byteAt text afterSign = chr '0' ∧ byteAt text (afterSign + 1) = chr 'b'
    let pos := if binary then afterSign + 2 else afterSign
    if isdigit (byteAt text pos) then
      .ok (some ⟨pos, negative, if binary then 2 else 0⟩)
    else
      .ok none

/-- The range check of `php_scylladb_parse_int`: the number it stores, and whether it
sets `errno` to `ERANGE`. -/
def intOf (negative : Bool) (temp : Nat) : Int × Bool :=
  if negative then
    if 2 ^ 31 < temp then
      (-2 ^ 31, true)
    else if temp = 2 ^ 31 then
      (-2 ^ 31, false)
    else
      (-(temp : Int), false)
  else
    if 2 ^ 31 - 1 < temp then
      (2 ^ 31 - 1, true)
    else
      (temp, false)

/-- How `php_scylladb_parse_int` ends: it reports a number out of range through
`errno`, without an exception. -/
inductive ParsedInt where
  | number (n : Int)
  | erange
  | thrown (e : Thrown)
deriving DecidableEq

/-- The part of `php_scylladb_parse_int` after the preparation. An `unsigned long` has
64 bits, so `strtoul` is `strtoull`; its value is cut to 32 bits. -/
def convertInt (s : Bytes) (p : Prepared) : ParsedInt :=
  let parsed := strtoull (s.drop p.pos) p.base
  let number := intOf p.negative (parsed.value % 2 ^ 32)
  if parsed.erange = true ∨ number.2 = true then
    .erange
  else if parsed.used = 0 then
    .thrown (.invalidArgument "Invalid integer value: '%.*s'")
  else if ((p.pos + parsed.used : Nat) : Int) ≠ inLen s then
    .thrown (.invalidArgument "Invalid characters were found in value: '%.*s'")
  else
    .number number.1

/-- `php_scylladb_parse_int` throws an exception of its own on a plain `false`. -/
def thenConvertInt (convert : Prepared → ParsedInt) : Except Thrown (Option Prepared) → ParsedInt
  | .error e => .thrown e
  | .ok none => .thrown (.invalidArgument "Invalid integer value: '%.*s'")
  | .ok (some p) => convert p

/-- `php_scylladb_parse_int`. -/
def parseInt (s : Bytes) : ParsedInt :=
  thenConvertInt (convertInt s) (prepareStringConversion s)

/-- The range check of `php_scylladb_parse_bigint`: the number it stores, and
whether it sets `errno` to `ERANGE`. -/
def bigintOf (negative : Bool) (temp : Nat) : Int × Bool :=
  if negative then
    if 2 ^ 63 < temp then
      (-2 ^ 63, true)
    else if temp = 2 ^ 63 then
      (-2 ^ 63, false)
    else
      (-(temp : Int), false)
  else
    if 2 ^ 63 - 1 < temp then
      (2 ^ 63 - 1, true)
    else
      (temp, false)

/-- The part of `php_scylladb_parse_bigint` after the preparation. -/
def convertBigint (s : Bytes) (p : Prepared) : Except Thrown Int :=
  let temp := strtoull (s.drop p.pos) p.base
  let number := bigintOf p.negative temp.value
  if temp.erange = true ∨ number.2 = true then
    .error (.range "value must be between %ld and %ld, %s given")
  else if temp.used = 0 then
    .error (.invalidArgument "Invalid integer value: '%.*s'")
  else if ((p.pos + temp.used : Nat) : Int) ≠ inLen s then
    .error (.invalidArgument "Invalid characters were found in value: '%.*s'")
  else
    .ok number.1

/-- An integer parser throws an exception of its own on a plain `false`. -/
def thenConvert (convert : Prepared → Except Thrown Int) :
    Except Thrown (Option Prepared) → Except Thrown Int
  | .error e => .error e
  | .ok none => .error (.invalidArgument "Invalid integer value: '%.*s'")
  | .ok (some p) => convert p

/-- `php_scylladb_parse_bigint`. -/
def parseBigint (s : Bytes) : Except Thrown Int :=
  thenConvert (convertBigint s) (prepareStringConversion s)

/-- `php_scylladb_parse_varint`. -/
def parseVarint (s : Bytes) : Except Thrown Int :=
  match prepareStringConversion s with
  | .error e => .error e
  | .ok none => .error (.invalidArgument "Invalid integer value: '%.*s'")
  | .ok (some p) =>
    match mpzSetStr (s.drop p.pos) p.base with
    | none => .error (.invalidArgument "Invalid integer value: '%.*s'")
    | some number => .ok (if p.negative then -number else number)

/-- The loop of `php_scylladb_parse_decimal` over the bytes from `point` to
`in_len`: it stops at the exponent mark and remembers the one dot. -/
def scanDecimal : Bytes → Nat → Option Nat → Except Thrown (Nat × Option Nat)
  | [], point, dot => .ok (point, dot)
  | c :: rest, point, dot =>
    if c = chr '.' then
      if dot.isSome then
        .error (.invalidArgument "Multiple '.' (dots) in the number '%.*s'")
      else
        scanDecimal rest (point + 1) (some point)
    else if c = chr 'e' ∨ c = chr 'E' then
      .ok (point, dot)
    else if isxdigit c then
      scanDecimal rest (point + 1) dot
    else
      .error (.invalidArgument "Unrecognized character '%c' at position %d")

/-- The bytes from index `i` up to index `j`. -/
def slice (s : Bytes) (i j : Nat) : Bytes :=
  (s.take j).drop i

/-- The digits that are copied into `out`. -/
def mantissaText (s : Bytes) (start point : Nat) : Option Nat → Bytes
  | some dot => slice s start dot ++ slice s (dot + 1) point
  | none => slice s start point

/-- Scale before the exponent is taken into account. -/
def mantissaScale (point : Nat) : Option Nat → Int
  | some dot => (point : Int) - 1 - dot
  | none => 0

/-- The exponent part, entered with `point` at the `e` or `E`. -/
def parseExponent (s : Bytes) (point : Nat) (scale : Int) : Except Thrown Int :=
  let p := if byteAt s (point + 1) = chr '+' then point + 2 else point + 1
  if inLen s ≤ p then
    .error (.invalidArgument "No exponent following e or E in value: '%.*s'")
  else if byteAt s p ≠ chr '-' ∧ isdigit (byteAt s p) = false then
    .error (.invalidArgument "Malformed exponent in value: '%.*s'")
  else
    let diff := strtol10 (s.drop p)
    if ((p + diff.used : Nat) : Int) ≠ inLen s ∨ diff.erange = true then
      .error (.invalidArgument "Malformed exponent in value: '%.*s'")
    else
      .ok (toInt64 (scale - diff.value))

/-- `negative`, as set from the first byte. -/
def decimalNegative (s : Bytes) : Bool :=
  byteAt s 0 = chr '-'

/-- `start`: the index of the significand. -/
def decimalStart (s : Bytes) : Nat :=
  if byteAt s 0 = chr '+' ∨ byteAt s 0 = chr '-' then 1 else 0

/-- The part of `php_scylladb_parse_decimal` that fills `out`, entered once
the text is known to be a real decimal. -/
def parseSignificand (s : Bytes) (point : Nat) (dot : Option Nat) : Except Thrown (Int × Int) :=
  if inLen s + 1 < 0 then
    -- `ecalloc((size_t) (in_len + 1), 1)` asks for almost 2^64 bytes
    .error (.fatal "Possible integer overflow in memory allocation")
  else
    let out :=
      (if decimalNegative s then [chr '-'] else []) ++ mantissaText s (decimalStart s) point dot
    if out.length = 0 then
      .error (.invalidArgument "No digits seen in value: '%.*s'")
    else
      match mpzSetStr out 10 with
      | none =>
        .error (.invalidArgument "Unable to extract integer part of decimal value: '%.*s', %s")
      | some number =>
        if (point : Int) < inLen s then
          (parseExponent s point (mantissaScale point dot)).map (fun scale => (number, scale))
        else
          .ok (number, mantissaScale point dot)

/-- `php_scylladb_parse_decimal`: the unscaled value and the scale. -/
def parseDecimal (s : Bytes) : Except Thrown (Int × Int) :=
  let start := decimalStart s
  let maybeOctal := byteAt s start = chr '0'
  if maybeOctal ∧ (byteAt s (start + 1) = chr 'b' ∨ byteAt s (start + 1) = chr 'x') then
    (parseVarint s).map (fun n => (n, 0))
  else
    match scanDecimal ((s.take (inLen s).toNat).drop start) start none with
    | .error e => .error e
    | .ok (point, dot) =>
      if maybeOctal ∧ dot = none then
        (parseVarint s).map (fun n => (n, 0))
      else
        parseSignificand s point dot

/-- `php_scylladb_format_integer`. -/
def formatInteger (number : Int) : Bytes :=
  mpzGetStr number

/-- `%+ld`. -/
def formatSignedLong (n : Int) : Bytes :=
  (if n < 0 then chr '-' else chr '+') :: decimalText n.natAbs

/-- Insert a dot at an index of the buffer. -/
def insertDot (tmp : Bytes) (i : Nat) : Bytes :=
  tmp.take i ++ chr '.' :: tmp.drop i

/-- `php_scylladb_format_decimal`. -/
def formatDecimal (number scale : Int) : Bytes :=
  if scale = 0 then
    formatInteger number
  else
    let negative := if number < 0 then 1 else 0
    let tmp := mpzGetStr number
    let len := tmp.length - negative
    let point : Int := len - scale
    if 0 < scale ∧ -6 ≤ point - 1 then
      if point ≤ 0 then
        -- e.g. -0.002 and 0.002
        (if number < 0 then [chr '-'] else []) ++ [chr '0', chr '.'] ++
          List.replicate (-point).toNat (chr '0') ++ tmp.drop negative
      else
        -- e.g. 1.2, -1.2
        insertDot tmp (point.toNat + negative)
    else if len = 1 then
      tmp ++ chr 'E' :: formatSignedLong (point - 1)
    else
      insertDot tmp (1 + negative) ++ chr 'E' :: formatSignedLong (point - 1)

end Numbers
end ScyllaDriver
