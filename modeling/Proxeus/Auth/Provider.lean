import Proxeus.Auth.Config

/-!
# Auth.Provider

The three providers of `pkg/auth`: a header set by a trusted proxy, basic auth and bearer tokens. A
provider takes a request to an identity or an error, and basic auth remembers the passwords it has
verified.
-/

namespace Proxeus
namespace Auth

variable [Packages]

open Packages

/-- What the handlers read of an `http.Request`. -/
structure Request where
  method : String
  /-- `URL.Path` -/
  path : String
  /-- `Header.Get` -/
  header : String → String
  remoteAddr : String
  context : Context

structure Identity where
  name : String
  groups : List String
  provider : String
deriving DecidableEq

/-- The errors of `authenticate`. -/
inductive AuthError where
  /-- `errNoCredentials` -/
  | noCredentials
  /-- any other error, with its text -/
  | rejected (text : String)
deriving DecidableEq

/-- `unicode.IsSpace` -/
def isSpace (c : Char) : Bool :=
  c ∈ ['\t', '\n', '\x0b', '\x0c', '\r', ' ', '\u0085', '\u00a0', '\u1680', '\u2028', '\u2029',
    '\u202f', '\u205f', '\u3000'] || ('\u2000' ≤ c && c ≤ '\u200a')

/-- `strings.TrimSpace` -/
def trimSpace (s : String) : String :=
  String.ofList ((s.toList.dropWhile isSpace).reverse.dropWhile isSpace).reverse

/-- `strings.Split` at commas. -/
def splitCommas (s : String) : List String :=
  (s.toList.splitOn ',').map String.ofList

/-- `credentials`: what follows the scheme in an `Authorization` header. The scheme is compared
without regard to case; the source compares as many bytes as the scheme has, so a character outside
ASCII never stands for one of it. -/
def credentials (r : Request) (scheme : String) : Option String :=
  let header := (r.header "Authorization").toList
  let start := scheme.toList ++ [' ']
  if header.length ≤ start.length ||
      (header.take start.length).map Char.toLower ≠ start.map Char.toLower then none
  else some (String.ofList (header.drop start.length))

/-! ## Trusted header -/

structure TrustedHeaderProvider where
  userHeader : String
  groupsHeader : String
  trusted : List Prefix

def newTrustedHeaderProvider (cfg : TrustedHeaderConfig) : Except String TrustedHeaderProvider :=
  cfg.prefixes.map fun trusted => ⟨cfg.userHeader, cfg.groupsHeader, trusted⟩

def TrustedHeaderProvider.trustedRemote (p : TrustedHeaderProvider) (remoteAddr : String) : Bool :=
  let host := (splitHostPort remoteAddr).getD remoteAddr
  match parseAddr host with
  | none => false
  | some addr => p.trusted.any fun cidr => contains cidr (unmap addr)

def TrustedHeaderProvider.authenticate (p : TrustedHeaderProvider) (r : Request) :
    Except AuthError Identity :=
  let user := r.header p.userHeader
  if user = "" then .error .noCredentials
  else if !p.trustedRemote r.remoteAddr then .error .noCredentials
  else
    let groups :=
      if p.groupsHeader = "" then []
      else ((splitCommas (r.header p.groupsHeader)).map trimSpace).filter (· ≠ "")
    .ok ⟨user, groups, "trusted_header"⟩

/-! ## Basic auth -/

/-- `verified` holds the keys of the passwords that have been checked. -/
structure BasicProvider where
  users : List (String × String)
  verified : List String

def newBasicProvider (cfg : BasicConfig) : BasicProvider :=
  ⟨cfg.users, []⟩

/-- The key of a verified password. -/
def verifiedKey (user hash password : String) : String :=
  user ++ "\x00" ++ hash ++ "\x00" ++ sha256Hex password

def BasicProvider.verify (p : BasicProvider) (user hash password : String) :
    Bool × BasicProvider :=
  let key := verifiedKey user hash password
  if key ∈ p.verified then (true, p)
  else if !compareHashAndPassword hash password then (false, p)
  else (true, { p with verified := key :: p.verified })

def BasicProvider.authenticate (p : BasicProvider) (r : Request) :
    Except AuthError Identity × BasicProvider :=
  match credentials r "Basic" with
  | none => (.error .noCredentials, p)
  | some _ =>
    match basicAuth (r.header "Authorization") with
    | none => (.error (.rejected "basic: malformed Authorization header"), p)
    | some (user, password) =>
      let invalid : AuthError :=
        .rejected ("basic: invalid credentials for user " ++ quote user)
      -- an unknown user costs a comparison too, of which nothing is kept
      match p.users.lookup user with
      | none => (.error invalid, p)
      | some hash =>
        match p.verify user hash password with
        | (false, p') => (.error invalid, p')
        | (true, p') => (.ok ⟨user, [], "basic"⟩, p')

/-! ## Bearer tokens -/

structure OIDCProvider where
  verifier : Verifier
  clientID : String
  usernameClaim : String
  groupsClaim : String

def newOIDCProvider (cfg : OIDCConfig) : Except String OIDCProvider :=
  match newVerifier cfg.issuerURL cfg.clientID cfg.skipIssuerVerification with
  | .error err => .error ("auth.oidc: discovery of " ++ cfg.issuerURL ++ " failed: " ++ err)
  | .ok verifier => .ok ⟨verifier, cfg.clientID, cfg.usernameClaim, cfg.groupsClaim⟩

def Claim.asString : Claim → Option String
  | .string s => some s
  | _ => none

def OIDCProvider.verifyAudience (p : OIDCProvider) (token : IDToken)
    (claims : List (String × Claim)) : Bool :=
  token.audience.contains p.clientID ||
    ((claims.lookup "azp").bind Claim.asString).getD "" == p.clientID

def OIDCProvider.groups (p : OIDCProvider) (claims : List (String × Claim)) : List String :=
  if p.groupsClaim = "" then []
  else
    match claims.lookup p.groupsClaim with
    | some (.string group) => [group]
    | some (.list items) => items.filterMap Claim.asString
    | _ => []

/-- A list under the verb `%v`. -/
def printList (items : List String) : String :=
  "[" ++ String.intercalate " " items ++ "]"

def OIDCProvider.authenticate (p : OIDCProvider) (r : Request) : Except AuthError Identity :=
  match credentials r "Bearer" with
  | none => .error .noCredentials
  | some rawToken =>
    match verify p.verifier r.context rawToken with
    | .error err => .error (.rejected ("oidc: " ++ err))
    | .ok token =>
      match token.claims with
      | .error err => .error (.rejected ("oidc: reading claims: " ++ err))
      | .ok claims =>
        if !p.verifyAudience token claims then
          .error (.rejected ("oidc: token audience " ++ printList token.audience ++ " is not " ++
            quote p.clientID))
        else
          let name := ((claims.lookup p.usernameClaim).bind Claim.asString).getD ""
          if name = "" then
            .error (.rejected ("oidc: token has no " ++ quote p.usernameClaim ++ " claim"))
          else .ok ⟨name, p.groups claims, "oidc"⟩

/-! ## A provider -/

/-- `provider` -/
inductive Provider where
  | trustedHeader (p : TrustedHeaderProvider)
  | basic (p : BasicProvider)
  | oidc (p : OIDCProvider)

/-- What a provider answers, and the provider after it. -/
def Provider.authenticate : Provider → Request → Except AuthError Identity × Provider
  | .trustedHeader p, r => (p.authenticate r, .trustedHeader p)
  | .basic p, r => ((p.authenticate r).1, .basic (p.authenticate r).2)
  | .oidc p, r => (p.authenticate r, .oidc p)

def Provider.answer (p : Provider) (r : Request) : Except AuthError Identity :=
  (p.authenticate r).1

end Auth
end Proxeus
