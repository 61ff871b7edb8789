import AeroNyra.Enrollment.Wire
import AeroNyra.Lib.Base64
import AeroNyra.Lib.Characters
import AeroNyra.Lib.Weave
import AeroNyra.Nostr.Text

/-! The text of an invite: how it is minted, what is undone to a text that was pasted, and what is
read from it. -/

namespace AeroNyra

/-! ### Percent encoding -/

/-- The value of a hexadecimal digit of either case. -/
def hexValue? (c : Char) : Option Nat :=
  if '0' ≤ c ∧ c ≤ '9' then some (c.toNat - '0'.toNat)
  else if 'a' ≤ c ∧ c ≤ 'f' then some (c.toNat - 'a'.toNat + 10)
  else if 'A' ≤ c ∧ c ≤ 'F' then some (c.toNat - 'A'.toNat + 10)
  else none

def percentDecode : Text → Option Data
  | [] => some []
  | '%' :: high :: low :: rest => do
    let a ← hexValue? high
    let b ← hexValue? low
    let bytes ← percentDecode rest
    return .ofNat (16 * a + b) :: bytes
  | c :: rest => if c = '%' then none else (percentDecode rest).map (Text.bytes [c] ++ ·)

def removingPercentEncoding (t : Text) : Option Text := (percentDecode t).bind Text.ofBytes?

namespace PairingService

variable (σ : Characters)

/-! ### Normalizing -/

/-- The scheme and the path of an invite: `target` of one function and `prefix` of the other. -/
def inviteScheme : Text := "aeronyra://invite/".toList

/-- The only scalars with a letter of the scheme as lowercase form are the ASCII letters. -/
def lowercased (t : Text) : Text := t.map Char.toLower

def quotePairs : List (Char × Char) :=
  [('"', '"'), ('\'', '\''), ('\u201C', '\u201D'), ('\u2018', '\u2019')]

def trimmingCharacters (t : Text) : Text := List.trimming isSpaceOrNewline t

def isQuoted (s : Text) (pair : Char × Char) : Bool :=
  2 ≤ σ.count s && (σ.split s).head? == some [pair.1] && (σ.split s).getLast? == some [pair.2]

/-- Without a pair of quotes around it. -/
def stripQuotes (s : Text) : Text :=
  if quotePairs.any (isQuoted σ s) then trimmingCharacters ((σ.split s).drop 1).dropLast.flatten
    else s

/-- The text with its first `n` characters decoded, if they are the scheme then. -/
def decodedHead (s : Text) (n : Nat) : Option Text :=
  if '%' ∈ σ.pre n s then
    (removingPercentEncoding (σ.pre n s)).bind fun decoded =>
      if lowercased decoded = inviteScheme then some (decoded ++ σ.dropFirst n s) else none
  else none

def percentDecodeSchemePrefixOnly (s : Text) : Text :=
  if ¬inviteScheme <+: lowercased s ∧ '%' ∈ s ∧ inviteScheme.length ≤ σ.count s then
    let last := min (inviteScheme.length * 3) (σ.count s)
    ((List.range' inviteScheme.length (last + 1 - inviteScheme.length)).findSome?
      (decodedHead σ s)).getD s
  else s

def isHardWrap (c : Char) : Bool := c == ' ' || c == '\t' || c == '\r' || c == '\n'

/-- Quoted-printable soft breaks first, as `=` is only removed as part of one. -/
def removingBreaks (s : Text) : Text :=
  ((s.removing ['=', '\r', '\n']).removing ['=', '\n']).filter (!isHardWrap ·)

def normalizeInviteTransportString (raw : Text) : Text :=
  removingBreaks (percentDecodeSchemePrefixOnly σ (stripQuotes σ (trimmingCharacters raw)))

/-! ### Reading and minting -/

def parseInviteScheme (s : Text) : Option Text :=
  if inviteScheme.length < σ.count s ∧ lowercased (σ.pre inviteScheme.length s) = inviteScheme then
    some (σ.dropFirst inviteScheme.length s)
  else none

def base64URLEncode (data : Data) : Text :=
  ((Base64.encode data).map fun c => if c = '+' then '-' else if c = '/' then '_' else c).filter
  (· ≠ '=')

def isBase64URL (c : Char) : Bool := c.isAlphanum || c == '-' || c == '_'

/-- As many `=` as make the count divisible by four. -/
def padded (b : Text) : Text := b ++ List.replicate ((4 - b.length % 4) % 4) '='

def base64URLDecode (s : Text) : Option Data :=
  if s ≠ [] ∧ (σ.split s).all (fun ch => ch.length == 1 && ch.all isBase64URL) then
    Base64.decode (padded (s.map fun c => if c = '-' then '+' else if c = '_' then '/' else c))
  else none

/-- The invite that `redeemInvite` reads. -/
def redeemedInvite (raw : Text) : Option Invite := do
  let b64 ← parseInviteScheme σ (normalizeInviteTransportString σ raw)
  let wire ← base64URLDecode σ b64
  Invite.ofWire? wire

end PairingService

end AeroNyra
