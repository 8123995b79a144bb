import ScyllaDriver.Library.CString
import ScyllaDriver.Library.Loop

/-!
# The IP address parser

`php_scylladb_parse_ip_address` of `InetUtil.c`: a tokenizer, a loop over the
tokens with nine states, and a last part that moves the bytes after a `::` to
the end of the address.

The loop first takes every decimal number for a hex field. When a dot follows
it takes the two bytes back, moves the read pointer back to the number, and
goes on with an IPv4 address. So the loop is not a recursion over the text,
and it runs here with a number of rounds; `parseIpAddress` gives it enough.

The write position and the remembered positions are C `int`s that start at
-1. A write outside the sixteen bytes is recorded in `inBounds`.
-/

namespace ScyllaDriver
namespace Inet

open CString Positional

/-- `CASS_INET_V4_LENGTH`. -/
def v4Length : Nat := 4

/-- `CASS_INET_V6_LENGTH`. -/
def v6Length : Nat := 16

/-- `TOKEN_MAX_LEN`. -/
def tokenMaxLen : Nat := 4

/-- `IP_MAX_ADDRLEN`. -/
def ipMaxAddrlen : Nat := 50

inductive TokenType
  | endOfAddress
  | colon
  | dot
  | hex
  | dec
  | illegal
  deriving DecidableEq, Repr

/-- `ip_address_describe_token`. -/
def TokenType.describe : TokenType → String
  | .endOfAddress => "end of address"
  | .colon => "colon"
  | .dot => "dot"
  | .hex => "hex address field"
  | .dec => "address field"
  | .illegal => "illegal character"

structure Token where
  type : TokenType
  /-- The token's characters; their number is `token_len`. -/
  text : Bytes
  deriving DecidableEq, Repr

/-- `tolower` of the C locale. -/
def tolower (c : UInt8) : UInt8 :=
  if 65 ≤ c.toNat ∧ c.toNat ≤ 90 then c + 32 else c

/-- The longest run of hex digits, up to `TOKEN_MAX_LEN` of them. -/
def fieldText (address : Bytes) : Bytes :=
  (address.take tokenMaxLen).takeWhile isxdigit

/-- The type of a token that is no number, by its only character. -/
def markType (ch : UInt8) : TokenType :=
  if ch = 0 then .endOfAddress
  else if ch = chr ':' then .colon
  else if ch = chr '.' then .dot
  else .illegal

/-- `ip_address_tokenize`: the token at the start of a text. -/
def ipAddressTokenize (address : Bytes) : Token :=
  let ch := byteAt address 0
  if isxdigit ch then
    ⟨if (fieldText address).all isdigit then .dec else .hex, (fieldText address).map tolower⟩
  else
    ⟨markType ch, [ch]⟩

/-- `strtoul(token, NULL, 16)` of a text that has no sign, blank or `0x`. -/
def strtoulHex (token : Bytes) : Nat :=
  value 16 ((token.takeWhile isxdigit).map digitValue)

inductive Refusal
  | nulByte (length offset : Nat)
  | tooLong
  | illegalCharacter (ch : UInt8) (position : Int)
  | unexpected (type : TokenType) (position : Int) (expected : String)
  | duplicateBlock (position : Int)
  | leadingZeroes (token : Bytes) (position : Int)
  | segmentValue (value position : Int)
  | noRoomForBlock
  | indexOutOfBounds (srcPos dstPos : Int)
  | tooFewBytes (bytes : Int)
  | tooManyBytes
  deriving DecidableEq, Repr

/-- `%d`. -/
def intText (x : Int) : Bytes :=
  if x < 0 then chr '-' :: decimalText x.natAbs else decimalText x.natAbs

/-- The text of the exception, for the address that was given. -/
def Refusal.message (address : Bytes) : Refusal → Bytes
  | .nulByte length offset =>
    ascii "The IP address of " ++ decimalText length ++
      ascii " bytes contains a NUL byte at offset " ++ decimalText offset
  | .tooLong =>
    ascii "The IP address \"" ++ address ++
      ascii "\" is too long (at most " ++ decimalText (ipMaxAddrlen - 1) ++
      ascii " characters are expected)"
  | .illegalCharacter ch position =>
    ascii "Illegal character \"" ++ [ch] ++ ascii "\" at position " ++
      intText position ++ ascii " in address \"" ++ address ++ ascii "\""
  | .unexpected type position expected =>
    ascii "Unexpected " ++ ascii type.describe ++ ascii " at position " ++
      intText position ++ ascii " in address \"" ++ address ++
      ascii "\", expected " ++ ascii expected
  | .duplicateBlock position =>
    ascii "Duplicate \"::\" block at position " ++ intText position ++
      ascii " in address \"" ++ address ++ ascii "\""
  | .leadingZeroes token position =>
    ascii "Illegal IPv4 character \"" ++ token ++ ascii "\" at position " ++
      intText position ++ ascii " in address \"" ++ address ++
      ascii "\" (no leading zeroes are allowed)"
  | .segmentValue value position =>
    ascii "Illegal IPv4 segment value '" ++ intText value ++
      ascii "' at position " ++ intText position ++ ascii " in address \"" ++
      address ++ ascii "\" (expected: 0 - 255)"
  | .noRoomForBlock =>
    ascii "Address \"" ++ address ++ ascii "\" contains a compressed zeroes block '::', " ++
      ascii "but the address already contains " ++ decimalText v6Length ++
      ascii " bytes or more"
  | .indexOutOfBounds srcPos dstPos =>
    ascii "Index out of bounds: src_pos = " ++ intText srcPos ++
      ascii ", dst_pos = " ++ intText dstPos ++ ascii ", array size = " ++
      decimalText v6Length
  | .tooFewBytes bytes =>
    ascii "Address \"" ++ address ++ ascii "\" contains only " ++
      intText bytes ++ ascii " bytes (" ++ decimalText v6Length ++
      ascii " bytes are expected)"
  | .tooManyBytes =>
    ascii "Address \"" ++ address ++ ascii "\" exceeds the maximum IPv6 byte length (" ++
      decimalText v6Length ++ ascii " bytes are expected)"

inductive ParserState
  | start
  | field
  | compressed
  | afterHex
  | afterDec
  | ipv4Byte
  | ipv4Dot
  | afterColon
  | ended
  deriving DecidableEq, Repr

structure Parser where
  state : ParserState := .start
  inPtr : Int := 0
  tokenLen : Int := -1
  prevTokenLen : Int := 0
  pos : Int := -1
  compressPos : Int := -1
  ipv4Pos : Int := -1
  address : Bytes := List.replicate v6Length 0
  /-- Whether `domain` was set to `IPV4`. -/
  isIpv4 : Bool := false
  /-- Whether every write so far was inside the address buffer. -/
  inBounds : Bool := true
  deriving DecidableEq, Repr

/-- `address[i] = x`. -/
def Parser.write (p : Parser) (i : Int) (x : UInt8) : Parser :=
  { p with
    address := p.address.set i.toNat x
    inBounds := p.inBounds && decide (0 ≤ i ∧ i < v6Length) }

/-- `address[++pos] = x`. -/
def Parser.push (p : Parser) (x : UInt8) : Parser :=
  { p.write (p.pos + 1) x with pos := p.pos + 1 }

/-- `address[pos--] = 0`. -/
def Parser.pop (p : Parser) : Parser :=
  { p.write p.pos 0 with pos := p.pos - 1 }

/-- How one round of the loop ends: `continue`, `break` or `return 0`. -/
abbrev Outcome := Loop.Round Parser (Except Refusal Parser)

/-- `break`. -/
def Outcome.done (p : Parser) : Outcome :=
  .stop (.ok p)

def Outcome.refused (r : Refusal) : Outcome :=
  .stop (.error r)

/-- `EXPECTING_TOKEN`. -/
def Parser.expecting (p : Parser) (token : Token) (expected : String) : Outcome :=
  .refused (.unexpected token.type (p.inPtr - 1) expected)

/-- The block of `STATE_COMPRESSED`. -/
def Parser.atCompressed (p : Parser) (token : Token) : Outcome :=
  if token.type = .colon then
    if p.compressPos ≠ -1 then
      .refused (.duplicateBlock (p.inPtr - 1))
    else
      .next { p with
        compressPos := if p.pos = -1 then 0 else p.pos + 1
        state := .field }
  else
    p.expecting token "a colon"

/-- Add the two bytes of a hex field, unless the address is full. -/
def Parser.addField (p : Parser) (token : Token) (state : ParserState) : Outcome :=
  if p.pos + 3 > v6Length then
    .done { p with state := state, pos := p.pos + 2 }
  else
    let field := strtoulHex token.text
    .next { (p.push (UInt8.ofNat (field / 256))).push (UInt8.ofNat field) with
      state := state }

/-- The block of `STATE_FIELD`. -/
def Parser.atField (p : Parser) (token : Token) : Outcome :=
  if token.type = .endOfAddress ∧ p.pos + 1 = p.compressPos then
    .done { p with state := .field }
  else
    match token.type with
    | .hex => p.addField token .afterHex
    | .dec => p.addField token .afterDec
    | _ => p.expecting token "an address field"

/-- The block of `STATE_AFTERHEX`. -/
def Parser.atAfterHex (p : Parser) (token : Token) : Outcome :=
  match token.type with
  | .endOfAddress => .done p
  | .colon => .next { p with state := .afterColon }
  | _ => p.expecting token "a colon"

/-- The block of `STATE_AFTERDEC`. -/
def Parser.atAfterDec (p : Parser) (token : Token) : Outcome :=
  match token.type with
  | .endOfAddress => .done p
  | .colon => .next { p with state := .afterColon }
  | .dot =>
    if p.pos < 1 then
      p.expecting token "an address field"
    else
      .next { p.pop.pop with
        inPtr := p.inPtr - (p.prevTokenLen + 1)
        state := .ipv4Byte
        ipv4Pos := 0 }
  | _ => p.expecting token "a colon or a dot"

/-- Add one byte of an IPv4 address, unless the address is full. -/
def Parser.addByte (p : Parser) (ipv4Byte : Int) : Outcome :=
  if p.pos + 2 > v6Length then
    .done { p with pos := p.pos + 1 }
  else
    let q := { p.push (UInt8.ofNat ipv4Byte.toNat) with
      ipv4Pos := p.ipv4Pos + 1 }
    if q.ipv4Pos = (v4Length : Int) then
      .next { q with
        isIpv4 := q.isIpv4 || decide (q.compressPos = -1 ∧ q.pos + 1 = (v4Length : Int))
        state := .ended }
    else
      .next { q with state := .ipv4Dot }

/-- The block of `STATE_IPV4BYTE`. -/
def Parser.atIpv4Byte (p : Parser) (token : Token) : Outcome :=
  if token.type = .dec then
    if token.text.length > 1 ∧ byteAt token.text 0 = chr '0' then
      .refused (.leadingZeroes token.text (p.inPtr - 1))
    else
      let ipv4Byte := (strtol10 token.text).value
      if ipv4Byte < 0 ∨ ipv4Byte > 255 then
        .refused (.segmentValue ipv4Byte (p.inPtr - 1))
      else
        p.addByte ipv4Byte
  else
    p.expecting token "an IPv4 address byte (0 - 255)"

/-- The block of `STATE_IPV4DOT`. -/
def Parser.atIpv4Dot (p : Parser) (token : Token) : Outcome :=
  if token.type = .dot then
    .next { p with state := .ipv4Byte }
  else
    p.expecting token "a dot"

/-- The block of `STATE_END`. -/
def Parser.atEnd (p : Parser) (token : Token) : Outcome :=
  if token.type = .endOfAddress then
    .done p
  else
    p.expecting token "the end of address"

/-- The body of the loop after the check for an illegal character. -/
def Parser.onToken (p : Parser) (token : Token) : Outcome :=
  match p.state with
  | .start =>
    if token.type = .colon then
      .next { p with state := .compressed }
    else if token.type ≠ .hex ∧ token.type ≠ .dec then
      p.expecting token "an address field or a colon"
    else
      p.atField token
  | .afterColon =>
    if token.type = .colon then p.atCompressed token else p.atField token
  | .compressed => p.atCompressed token
  | .field => p.atField token
  | .afterHex => p.atAfterHex token
  | .afterDec => p.atAfterDec token
  | .ipv4Byte => p.atIpv4Byte token
  | .ipv4Dot => p.atIpv4Dot token
  | .ended => p.atEnd token

/-- The token the loop reads next. -/
def Parser.token (p : Parser) (input : Bytes) : Token :=
  ipAddressTokenize (input.drop p.inPtr.toNat)

/-- The variables after a token of this length was read. -/
def Parser.advance (p : Parser) (tokenLen : Nat) : Parser :=
  { p with
    prevTokenLen := if p.tokenLen > -1 then p.tokenLen else p.prevTokenLen
    tokenLen := tokenLen
    inPtr := p.inPtr + tokenLen }

def step (input : Bytes) (p : Parser) : Outcome :=
  let token := p.token input
  let q := p.advance token.text.length
  if token.type = .illegal then
    .refused (.illegalCharacter (byteAt token.text 0) (q.inPtr - 1))
  else
    q.onToken token

/-- What the parser stores: `address_length` and that many bytes. -/
structure CassInet where
  addressLength : Nat
  address : Bytes
  deriving DecidableEq, Repr

def cassInetInitV4 (address : Bytes) : CassInet :=
  ⟨v4Length, address.take v4Length⟩

def cassInetInitV6 (address : Bytes) : CassInet :=
  ⟨v6Length, address.take v6Length⟩

/-- The loop that moves the bytes after `compress_pos` to the end, from its
`i`-th round on, with so many rounds left. -/
def inflate (compressPos moveLen : Int) : Nat → Nat → Bytes → Except Refusal Bytes
  | 0, _, address => .ok address
  | left + 1, i, address =>
    let srcPos := compressPos + moveLen - i - 1
    let dstPos := (v6Length : Int) - i - 1
    if srcPos ≥ 0 ∧ srcPos < v6Length ∧ dstPos ≥ 0 ∧ dstPos < v6Length then
      inflate compressPos moveLen left (i + 1)
        ((address.set dstPos.toNat (address.getD srcPos.toNat 0)).set srcPos.toNat 0)
    else
      .error (.indexOutOfBounds srcPos dstPos)

def conclude (p : Parser) : Except Refusal CassInet :=
  if p.isIpv4 = false ∧ p.compressPos ≠ -1 then
    if p.pos + 1 ≥ v6Length then
      .error .noRoomForBlock
    else if p.pos + 1 ≠ p.compressPos then
      let moveLen := p.pos + 1 - p.compressPos
      (inflate p.compressPos moveLen moveLen.toNat 0 p.address).map cassInetInitV6
    else
      .ok (cassInetInitV6 p.address)
  else if p.isIpv4 = false then
    if p.pos + 1 < v6Length then
      .error (.tooFewBytes (p.pos + 1))
    else if p.pos + 1 > v6Length then
      .error .tooManyBytes
    else
      .ok (cassInetInitV6 p.address)
  else
    .ok (cassInetInitV4 p.address)

/-- `php_scylladb_parse_ip_address` with at most so many rounds of its loop. -/
def parseWithin (rounds : Nat) (input : Bytes) : Option (Except Refusal CassInet) :=
  if input.length ≠ strlen input then
    some (.error (.nulByte input.length (strlen input)))
  else if input.length > ipMaxAddrlen - 1 then
    some (.error .tooLong)
  else
    (Loop.run (step input) rounds {}).map (·.bind conclude)

/-- Rounds that are enough for a text of this length. -/
def roundsFor (length : Nat) : Nat :=
  2 * length + 4

/-- `php_scylladb_parse_ip_address`. -/
def parseIpAddress (input : Bytes) : Option (Except Refusal CassInet) :=
  parseWithin (roundsFor input.length) input

example :
    parseIpAddress (ascii "1:2::10.0.0.255") =
      some (.ok ⟨16, [0, 1, 0, 2, 0, 0, 0, 0, 0, 0, 0, 0, 10, 0, 0, 255]⟩) := by
  decide +kernel

end Inet
end ScyllaDriver
