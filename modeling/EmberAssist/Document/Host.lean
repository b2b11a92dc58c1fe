import EmberAssist.Text.Quoted
import EmberAssist.Text.Search

/-! The host in a URI. Only what makes a URI unreadable matters here: brackets that do not hold an
address, and characters that would change where the host ends. -/
namespace EmberAssist.Uri

/-- What can be wrong with the host of a URI. -/
inductive HostFault where
  | unbalancedBrackets
  | badFutureAddress
  | shortAddressInBrackets
  | noAddress (text : List Char)
  | hiddenSeparator (host : List Char)
deriving DecidableEq, Repr

/-- The wording of a fault. -/
def HostFault.message : HostFault → String
  | unbalancedBrackets => "Invalid IPv6 URL"
  | badFutureAddress => "IPvFuture address is invalid"
  | shortAddressInBrackets => "An IPv4 address cannot be in brackets"
  | noAddress text =>
    String.ofList (Text.quoted text) ++ " does not appear to be an IPv4 or IPv6 address"
  | hiddenSeparator host =>
    "netloc '" ++ String.ofList host ++ "' contains invalid characters under NFKC normalization"

/-- Characters beyond ASCII whose compatibility forms hold a slash, a question mark, a number sign, an
at sign or a colon. -/
def wideSeparators : List Nat :=
  [0x2047, 0x2048, 0x2049, 0x2100, 0x2101, 0x2105, 0x2106, 0x2A74, 0xFE13, 0xFE16, 0xFE55, 0xFE56,
    0xFE5F, 0xFE6B, 0xFF03, 0xFF0F, 0xFF1A, 0xFF1F, 0xFF20]

/-- A hexadecimal digit. -/
def isHexDigit (c : Char) : Bool :=
  c.isDigit || ('a' ≤ c && c ≤ 'f') || ('A' ≤ c && c ≤ 'F')

/-- One number of a four-part address: up to 255, and without a leading zero. -/
def isOctet (digits : List Char) : Bool :=
  !digits.isEmpty && digits.all Char.isDigit && digits.length ≤ 3 &&
    (digits == ['0'] || digits.head? != some '0') &&
    digits.foldl (fun n c => 10 * n + (c.toNat - 48)) 0 ≤ 255

/-- An address of four numbers with dots between them. -/
def isShortAddress (text : List Char) : Bool :=
  let parts := Text.splitOn '.' text
  parts.length == 4 && parts.all isOctet

/-- One group of a long address. -/
def isHextet (digits : List Char) : Bool :=
  !digits.isEmpty && digits.length ≤ 4 && digits.all isHexDigit

/-- The groups of a long address, of which two colons may leave out one stretch. -/
def areHextets (parts : List (List Char)) : Bool :=
  let inner := (parts.drop 1).dropLast
  match inner.findIdx? List.isEmpty with
  | none => parts.length == 8 && parts.all isHextet
  | some index =>
    let before := parts.take (index + 1)
    let after := parts.drop (index + 2)
    let before := if before == [[]] then [] else before
    let after := if after == [[]] then [] else after
    before.all isHextet && after.all isHextet && before.length + after.length ≤ 7

/-- An address of eight groups with colons between them, the last two of which may be written as a
four-part address. A zone may follow after a percent sign. -/
def isLongAddress (text : List Char) : Bool :=
  let (address, zone) := text.span (· != '%')
  let zoneFits := zone.isEmpty || (zone.length > 1 && !(zone.drop 1).contains '%')
  let parts := Text.splitOn ':' address
  let last := parts.getLast?.getD []
  let parts :=
    if last.contains '.' then
      parts.dropLast ++ (if isShortAddress last then [['0'], ['0']] else [['.'], ['.']])
    else parts
  !text.contains '/' && zoneFits && 3 ≤ (Text.splitOn ':' address).length && parts.length ≤ 9 &&
    areHextets parts

/-- An address of a kind that is yet to come: a version and anything behind a dot. -/
def isFutureAddress (text : List Char) : Bool :=
  let (version, rest) := (text.drop 1).span isHexDigit
  !version.isEmpty && rest.head? == some '.' && 1 < rest.length

/-- What stands in brackets must be a long address. -/
def checkBracketed (text : List Char) : Except HostFault Unit :=
  if text.head? == some 'v' then
    if isFutureAddress text then .ok () else .error .badFutureAddress
  else if isShortAddress text then .error .shortAddressInBrackets
  else if isLongAddress text then .ok ()
  else .error (.noAddress text)

/-- Checks the host of a URI. -/
def checkHost (host : List Char) : Except HostFault Unit := do
  if host.contains '[' != host.contains ']' then throw .unbalancedBrackets
  if host.contains '[' then
    checkBracketed (((host.dropWhile (· != '[')).drop 1).takeWhile (· != ']'))
  if host.any fun c => wideSeparators.contains c.toNat then throw (.hiddenSeparator host)

end EmberAssist.Uri
