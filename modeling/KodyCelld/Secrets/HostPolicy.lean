import KodyCelld.Execute.ImportSpecifiers

namespace KodyCelld.Secrets

open KodyCelld.Lib KodyCelld.Execute

/-!
# Which hosts may get credentials (`secrets/host-policy.ts`, `lib/host-allowlist.ts`)

* `isHostApproved` — the approved hosts, exact or `*.suffix`;
* `hostMatchesAllowlist` — the operator's private hosts: names, suffixes, addresses and ranges;
* `isCredentialTransportAllowed` — https, or http to a private host;
* `isLoopbackHost` — names and addresses of the machine itself;
* `isPrivateHostname` — names and addresses that only a private network has.
-/

/-! ### Approved hosts -/

def hostMatchesApproval (host approved : Text) : Bool :=
  if startsWith approved "*." then
    let suffix := approved.drop 1
    endsWith host suffix && decide (suffix.length < host.length)
  else decide (host = approved)

def isHostApproved (host : Text) (approvedHosts : List Text) : Bool :=
  approvedHosts.any (hostMatchesApproval host)

/-! ### Hosts as they are stored -/

/-- `25[0-5]|2[0-4]\d|1?\d?\d` -/
def isIpv4Octet (part : Text) : Bool :=
  part.all isDigit &&
    if part.length = 3 then
      decide (part.head? = some '1') ||
        (decide (part.head? = some '2') && decide (digitsVal part ≤ 255))
    else decide (part.length = 1 ∨ part.length = 2)

def ipv4Regex (host : Text) : Bool :=
  let parts := host.splitOn '.'
  decide (parts.length = 4) && parts.all isIpv4Octet

/-- Labels of 1 to 63 of `[a-z0-9-]`, with no `-` at either end; 253 characters in all. -/
def hostnameRegex (host : Text) : Bool :=
  let isEnd := fun c : Char => isDigit c || ('a' ≤ c && c ≤ 'z')
  decide (host.length ≤ 253) && (host.splitOn '.').all fun label =>
    !label.isEmpty && decide (label.length ≤ 63) && label.all (fun c => isEnd c || c == '-') &&
      label.head?.all isEnd && label.getLast?.all isEnd

/-- A host, `*.suffix` or bracketed IPv6 address in its stored form. -/
def normalizeSecretHost (toLowerCase : Text → Text) (input : Text) : Except Thrown Text :=
  let invalid := fun what : Text => Except.error (.kody "invalid_host" ("Host \"" ++ input ++ "\"" ++ what))
  let raw := toLowerCase (trim input)
  if raw = [] then .error (.kody "invalid_host" "Host is required.")
  else if raw.any (· ∈ ['/', '?', '#', '@']) then invalid " must not contain a scheme or path."
  else if startsWith raw "[" && endsWith raw "]" then
    let inner := slice raw 1 (raw.length - 1)
    let isHex := fun c : Char => isDigit c || ('a' ≤ c && c ≤ 'f') || c == ':' || c == '.'
    if inner = [] ∨ !inner.all isHex ∨ ':' ∉ inner then invalid " is not a valid IPv6 literal."
    else .ok raw
  else
    let wildcard := startsWith raw "*."
    let host := if wildcard then raw.drop 2 else raw
    if ':' ∈ host then invalid " must not include a port."
    else if ipv4Regex host then
      if wildcard then .error (.kody "invalid_host" "Wildcards are not allowed on IP hosts.")
      else .ok host
    else if !hostnameRegex host then invalid " is not a valid hostname."
    else if wildcard && '.' ∉ host then
      .error (.kody "invalid_host" "Wildcard hosts need at least one fixed label.")
    else .ok (if wildcard then "*." ++ host else host)

/-! ### Address literals -/

def parseIpv4 (text : Text) : Option ℕ :=
  let parts := text.splitOn '.'
  if parts.length ≠ 4 then none
  else if parts.all fun part =>
      !part.isEmpty && decide (part.length ≤ 3) && part.all isDigit &&
        decide (digitsVal part ≤ 255) then
    some (parts.foldl (fun value part => value * 2 ^ 8 + digitsVal part) 0)
  else none

/-- `text.split('::')` -/
def splitDouble : Text → List Text
  | ':' :: ':' :: rest => [] :: splitDouble rest
  | c :: rest =>
    match splitDouble rest with
    | [] => [[c]]
    | piece :: pieces => (c :: piece) :: pieces
  | [] => [[]]

def isHexDigit (c : Char) : Bool := isDigit c || ('a' ≤ c && c ≤ 'f')

/-- The value of lower-case hexadecimal digits. -/
def hexVal (text : Text) : ℕ :=
  text.foldl (fun n c => 16 * n + if isDigit c then c.toNat - '0'.toNat else c.toNat - 'a'.toNat + 10) 0

/-- The 16-bit words of one side of `::`; a dotted IPv4 address may only come last. -/
def pushGroups : List Text → Option (List ℕ)
  | [] => some []
  | group :: rest =>
    if '.' ∈ group then
      if rest ≠ [] then none
      else (parseIpv4 group).map fun v4 => [v4 / 2 ^ 16, v4 % 2 ^ 16]
    else if !group.isEmpty && decide (group.length ≤ 4) && group.all isHexDigit then
      (pushGroups rest).map (hexVal group :: ·)
    else none

def parseIpv6 (text : Text) : Option ℕ :=
  if text = [] ∨ !(text.all fun c => isHexDigit c || c == ':' || c == '.') ∨ ':' ∉ text then none
  else
    let halves := splitDouble text
    if 2 < halves.length then none
    else
      let groups := fun half : Text => if half = [] then [] else half.splitOn ':'
      let tail := if halves.length = 2 then groups (halves.getD 1 []) else []
      match pushGroups (groups (halves.getD 0 [])), pushGroups tail with
      | some headWords, some tailWords =>
        let missing : ℤ := 8 - headWords.length - tailWords.length
        if if halves.length = 2 then missing < 1 else missing ≠ 0 then none
        else some ((headWords ++ List.replicate missing.toNat 0 ++ tailWords).foldl
          (fun acc word => acc * 2 ^ 16 + word) 0)
      | _, _ => none

inductive IpVersion where
  | v4 | v6
  deriving DecidableEq, Repr

/-- `text.replace(/^\[|\]$/g, '')` -/
def stripBrackets (text : Text) : Text :=
  let opened := if text.head? = some '[' then text.drop 1 else text
  if opened.getLast? = some ']' then opened.dropLast else opened

/-- Parses an address, bracketed or not; an IPv4-mapped IPv6 address is one of version 4. -/
def parseIpLiteral (host : Text) : Option (IpVersion × ℕ) :=
  let text := stripBrackets (lower (trim host))
  match parseIpv4 text with
  | some value => some (.v4, value)
  | none =>
    match parseIpv6 text with
    | none => none
    | some value =>
      if value / 2 ^ 32 = 0xffff then some (.v4, value % 2 ^ 32) else some (.v6, value)

def cidrMask (bits width : ℕ) : ℕ := if bits = 0 then 0 else (2 ^ bits - 1) * 2 ^ (width - bits)

def inCidr (value network bits width : ℕ) : Bool :=
  let mask := cidrMask bits width
  decide (value &&& mask = network &&& mask)

/-! ### The operator's allowlist -/

/-- A label of a host name: 1 to 63 of `[a-z0-9_-]`, with no `-` at either end. -/
def isHostLabel (label : Text) : Bool :=
  let isEnd := fun c : Char => isDigit c || ('a' ≤ c && c ≤ 'z') || c == '_'
  !label.isEmpty && decide (label.length ≤ 63) && label.all (fun c => isEnd c || c == '-') &&
    label.head?.all isEnd && label.getLast?.all isEnd

def hostnamePattern (text : Text) : Bool :=
  decide (text.length ≤ 253) && (text.splitOn '.').all isHostLabel

inductive Entry where
  | host (host : Text)
  | suffix (suffix : Text)
  | cidr (version : IpVersion) (network bits : ℕ)
  deriving DecidableEq, Repr

def IpVersion.width : IpVersion → ℕ
  | .v4 => 32
  | .v6 => 128

/-- `none` where the source throws; its only caller here skips such an entry. -/
def parseEntry (raw : Text) : Option Entry :=
  let entry := lower (trim raw)
  if entry = [] then none
  else if '/' ∈ entry then
    match entry.splitOn '/' with
    | [address, prefixText] =>
      if prefixText = [] ∨ 3 < prefixText.length ∨ !prefixText.all isDigit then none
      else
        match parseIpLiteral address with
        | none => none
        | some (ipVersion, ipValue) =>
          let isV4Text := (parseIpv4 address).isSome
          if !isV4Text ∧ ipVersion = .v4 then none
          else
            let version := if isV4Text then IpVersion.v4 else .v6
            let bits := digitsVal prefixText
            if version.width < bits then none
            else
              let value :=
                if version = .v4 then ipValue else (parseIpv6 (stripBrackets address)).getD 0
              some (.cidr version (value &&& cidrMask bits version.width) bits)
    | _ => none
  else
    match parseIpLiteral entry with
    | some (version, value) => some (.cidr version value version.width)
    | none =>
      if startsWith entry "*." then
        if hostnamePattern (entry.drop 2) then some (.suffix ('.' :: entry.drop 2)) else none
      else if hostnamePattern entry then some (.host entry)
      else none

/-- One round of the loop of `hostMatchesAllowlist`. -/
def entryMatches (host : Text) (ip : Option (IpVersion × ℕ)) (raw : Text) : Bool :=
  match parseEntry raw, ip with
  | none, _ => false
  | some (.cidr version network bits), some (ipVersion, value) =>
    decide (ipVersion = version) && inCidr value network bits version.width
  | some (.cidr ..), none => false
  | some _, some _ => false
  | some (.suffix suffix), none => endsWith host suffix && decide (suffix.length < host.length)
  | some (.host name), none => decide (host = name)

def hostMatchesAllowlist (hostname : Text) (entries : List Text) : Bool :=
  let host := stripBrackets (lower (trim hostname))
  entries.any (entryMatches host (parseIpLiteral host))

/-! ### The transport -/

/-- Credentials only travel over https unless the operator listed the host. -/
def isCredentialTransportAllowed (protocol hostname : Text) (privateHosts : List Text) : Bool :=
  if protocol = "https:" then true
  else if protocol ≠ "http:" then false
  else hostMatchesAllowlist (lower hostname) privateHosts

/-! ### The machine itself -/

def isLoopbackHost (host : Text) : Bool :=
  decide (host = "localhost") || endsWith host ".localhost" || decide (host = "127.0.0.1") ||
    decide (host = "[::1]") || decide (host = "::1")

/-! ### Private hosts -/

def privateV4 : List (ℕ × ℕ) :=
  ([("0.0.0.0", 8), ("10.0.0.0", 8), ("100.64.0.0", 10), ("127.0.0.0", 8), ("169.254.0.0", 16),
    ("172.16.0.0", 12), ("192.0.0.0", 24), ("192.168.0.0", 16), ("198.18.0.0", 15),
    ("224.0.0.0", 4), ("240.0.0.0", 4), ("255.255.255.255", 32)] : List (Text × ℕ)).map
    fun row => ((parseIpv4 row.1).getD 0, row.2)

def privateV6 : List (ℕ × ℕ) :=
  ([("64:ff9b:1::", 48), ("fc00::", 7), ("fe80::", 10), ("fec0::", 10), ("ff00::", 8),
    ("100::", 64)] : List (Text × ℕ)).map fun row => ((parseIpv6 row.1).getD 0, row.2)

def isPrivateV4 (value : ℕ) : Bool :=
  privateV4.any fun row => inCidr value row.1 row.2 32

/-- An address that embeds one of version 4 is as private as that. -/
def isPrivateV6 (value : ℕ) : Bool :=
  let low32 := value % 2 ^ 32
  let top96 := value / 2 ^ 32
  if top96 = 0 ∨ top96 = 0xffff0000 ∨ top96 = 0x64ff9b * 2 ^ 64 then isPrivateV4 low32
  else if value / 2 ^ 112 = 0x2002 then isPrivateV4 (value / 2 ^ 80 % 2 ^ 32)
  else privateV6.any fun row => inCidr value row.1 row.2 128

def isPrivateIp (host : Text) : Bool :=
  match parseIpLiteral host with
  | none => false
  | some (.v4, value) => isPrivateV4 value
  | some (.v6, value) => isPrivateV6 value

/-- Private by name or by address; a name is not resolved here. -/
def isPrivateHostname (hostname : Text) : Bool :=
  let host := lower hostname
  if isPrivateIp host then true
  else if ':' ∈ host then false
  else decide (host = "localhost") || endsWith host ".localhost" || endsWith host ".internal" ||
    endsWith host ".local" || decide ('.' ∉ host)

end KodyCelld.Secrets
