import EmberAssist.FilePath
import EmberAssist.Text.Utf8
import EmberAssist.Document.Host

/-! Document URIs and the paths they stand for. -/
namespace EmberAssist.Uri

/-- The value of a hexadecimal digit. -/
def hexValue? (c : Char) : Option Nat :=
  if c.isDigit then some (c.toNat - 48)
  else if 'a' ≤ c ∧ c ≤ 'f' then some (c.toNat - 87)
  else if 'A' ≤ c ∧ c ≤ 'F' then some (c.toNat - 55)
  else none

/-- A hexadecimal digit, in upper case. -/
def hexDigit (n : Nat) : Char := if n < 10 then Char.ofNat (48 + n) else Char.ofNat (55 + n)

/-- A character that stands for itself in a URI's path. -/
def isPlain (c : Char) : Bool := c.isAlphanum || ['_', '.', '-', '~', '/'].contains c

/-- A byte as a percent sign and two hexadecimal digits. -/
def escapeByte (byte : UInt8) : List Char :=
  ['%', hexDigit (byte.toNat / 16), hexDigit (byte.toNat % 16)]

/-- A path written for a URI: the bytes of every character that does not stand for itself are
escaped. -/
def escape (chars : List Char) : List Char :=
  chars.flatMap fun c => if isPlain c then [c] else (Text.utf8Char c).flatMap escapeByte

/-- The bytes that ASCII characters stand for. A percent sign that no two hexadecimal digits follow
stands for itself. -/
def escapedBytes : List Char → List UInt8
  | '%' :: a :: b :: rest =>
    match hexValue? a, hexValue? b with
    | some high, some low => .ofNat (16 * high + low) :: escapedBytes rest
    | _, _ => 0x25 :: escapedBytes (a :: b :: rest)
  | c :: rest => .ofNat c.toNat :: escapedBytes rest
  | [] => []

/-- Decodes a text whose latest ASCII characters, nearest first, are still to be decoded together.
Only ASCII characters can be part of an escape. -/
def unescapeAfter (pending : List Char) : List Char → List Char
  | [] => Text.decodeLossy (escapedBytes pending.reverse)
  | c :: rest =>
    if c.toNat < 0x80 then unescapeAfter (c :: pending) rest
    else Text.decodeLossy (escapedBytes pending.reverse) ++ c :: unescapeAfter [] rest

/-- Decodes the escapes of a path. -/
def unescape (chars : List Char) : List Char := unescapeAfter [] chars

/-- A character of a scheme. -/
def isSchemeChar (c : Char) : Bool := c.isAlphanum || ['+', '-', '.'].contains c

/-- A control character or a space. -/
def isControlOrSpace (c : Char) : Bool := c.toNat ≤ 0x20

/-- A character that is dropped wherever it stands in a URI. -/
def isDropped (c : Char) : Bool := c == '\t' || c == '\r' || c == '\n'

/-- A URI's scheme in lower case and what follows it; the scheme is empty if there is none. -/
def splitScheme (chars : List Char) : List Char × List Char :=
  match chars.span (· != ':') with
  | (first :: others, _ :: rest) =>
    if first.isAlpha && others.all isSchemeChar then ((first :: others).map Char.toLower, rest)
    else ([], chars)
  | _ => ([], chars)

/-- A character that ends the host of a URI. -/
def endsHost (c : Char) : Bool := c == '/' || c == '?' || c == '#'

/-- The host after two slashes and what follows it. -/
def splitHost : List Char → List Char × List Char
  | '/' :: '/' :: rest => rest.span (!endsHost ·)
  | chars => ([], chars)

/-- The path that a URI stands for: the decoded path of a file URI, and a text without a scheme as it
is (`uri_to_file_path`). Other schemes stand for no path. -/
def toFilePath? (uri : String) : Except HostFault (Option String) := do
  let chars := (uri.toList.dropWhile isControlOrSpace).filter (!isDropped ·)
  let (scheme, rest) := splitScheme chars
  let (host, rest) := splitHost rest
  checkHost host
  let path := rest.takeWhile fun c => c != '#' && c != '?'
  if scheme == "file".toList then return some (String.ofList (unescape path))
  else if scheme.isEmpty then return some uri
  else return none

/-- The URI of an absolute path (`as_uri`). -/
def ofFilePath (path : FilePath) : String :=
  String.ofList ("file://".toList ++ escape path.text.toList)

end EmberAssist.Uri
