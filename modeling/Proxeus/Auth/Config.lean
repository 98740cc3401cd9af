import Proxeus.Lib.Path

/-!
# Auth.Config

`pkg/auth/config.go`: the `proxeus.auth` block and its checks. Addresses, bcrypt hashes and ID tokens
belong to other packages, so what those do with them is a parameter.
-/

namespace Proxeus
namespace Auth

open Lib

/-! ## Checks -/

/-- The first of `checks` that fails. -/
def firstError : List (Except String Unit) → Except String Unit
  | [] => .ok ()
  | .ok () :: checks => firstError checks
  | .error err :: _ => .error err

theorem firstError_eq_ok {checks : List (Except String Unit)} :
    firstError checks = .ok () ↔ ∀ check ∈ checks, check = .ok () := by
  induction checks with
  | nil => simp [firstError]
  | cons check checks ih =>
    cases check with
    | error err => simp [firstError]
    | ok u => simp [firstError, ih]

/-- A check that fails with `err` when `failed`. -/
def check (failed : Bool) (err : String) : Except String Unit :=
  if failed then .error err else .ok ()

theorem check_eq_ok {failed : Bool} {err : String} :
    check failed err = .ok () ↔ failed = false := by
  unfold check
  cases failed <;> simp

/-- The check of a block that may be absent. -/
def validateBlock {α : Type} (validate : α → Except String Unit) : Option α → Except String Unit
  | none => .ok ()
  | some block => validate block

theorem validateBlock_eq_ok {α : Type} {validate : α → Except String Unit} {block : Option α} :
    validateBlock validate block = .ok () ↔ ∀ b ∈ block, validate b = .ok () := by
  cases block with
  | none => simp [validateBlock]
  | some b => simp [validateBlock]

/-! ## The block -/

/-- The value of a claim of a token, as it is read from JSON. -/
inductive Claim where
  | string (s : String)
  | list (claims : List Claim)
  /-- a number, a boolean, an object or null -/
  | other

/-- `oidc.IDToken`, with what reading its claims yields. -/
structure IDToken where
  audience : List String
  claims : Except String (List (String × Claim))

/-- What the packages that authentication rests on do. -/
class Packages where
  /-- `strconv.Quote`, the verb `%q` -/
  quote : String → String
  /-- `netip.Addr` -/
  Addr : Type
  /-- `netip.Prefix` -/
  Prefix : Type
  /-- `net.SplitHostPort`: the host, if the address has one -/
  splitHostPort : String → Option String
  parseAddr : String → Option Addr
  unmap : Addr → Addr
  parsePrefix : String → Except String Prefix
  masked : Prefix → Prefix
  contains : Prefix → Addr → Bool
  /-- `http.Request.BasicAuth`: the user and the password of an `Authorization` header -/
  basicAuth : String → Option (String × String)
  /-- `bcrypt.Cost` -/
  bcryptCost : String → Except String Nat
  /-- `bcrypt.CompareHashAndPassword`, whether it returns no error -/
  compareHashAndPassword : String → String → Bool
  /-- `hex.EncodeToString` of `sha256.Sum256` -/
  sha256Hex : String → String
  /-- what a verification reads besides the token: the time and the keys of the issuer -/
  Context : Type
  /-- `oidc.IDTokenVerifier` -/
  Verifier : Type
  /-- `oidc.NewProvider` and its `Verifier`: of an issuer, a client and whether issuers are not
  compared -/
  newVerifier : String → String → Bool → Except String Verifier
  /-- `oidc.IDTokenVerifier.Verify` -/
  verify : Verifier → Context → String → Except String IDToken

variable [Packages]

open Packages

structure BasicConfig where
  /-- a hash for each user -/
  users : List (String × String)

structure OIDCConfig where
  issuerURL : String
  clientID : String
  usernameClaim : String
  groupsClaim : String
  skipIssuerVerification : Bool

/-- `DefaultOIDCConfig` -/
def defaultOIDCConfig : OIDCConfig :=
  ⟨"", "", "sub", "", false⟩

structure TrustedHeaderConfig where
  userHeader : String
  groupsHeader : String
  trustedProxies : List String

structure RouteAuthorizationConfig where
  pathPrefix : String
  allowedUsers : List String
  allowedGroups : List String
deriving DecidableEq

structure AuthorizationConfig where
  allowedUsers : List String
  allowedGroups : List String
  routes : List RouteAuthorizationConfig

/-- `Config`. Without `exempt_paths` the list is `none`, which is not the empty list. -/
structure Config where
  exemptPaths : Option (List String)
  basic : Option BasicConfig
  oidc : Option OIDCConfig
  trustedHeader : Option TrustedHeaderConfig
  authorization : Option AuthorizationConfig

/-! ## Validation -/

def hashError (user err : String) : String :=
  "auth.basic: user " ++ quote user ++ ": password is not a bcrypt hash: " ++ err

/-- `BasicConfig.validate`. The source ranges over a map, so which of several bad hashes it reports
is not fixed; here it is the first of the list. -/
def BasicConfig.validate (c : BasicConfig) : Except String Unit :=
  firstError <|
    check c.users.isEmpty "auth.basic: users must not be empty" ::
    c.users.map fun u =>
      match bcryptCost u.2 with
      | .error err => .error (hashError u.1 err)
      | .ok _ => .ok ()

def OIDCConfig.validate (c : OIDCConfig) : Except String Unit :=
  firstError
    [check (c.issuerURL = "") "auth.oidc: issuer_url must be set",
      check (c.clientID = "") "auth.oidc: client_id must be set"]

/-- The loop of `TrustedHeaderConfig.prefixes`. -/
def prefixesLoop : List String → Except String (List Prefix)
  | [] => .ok []
  | proxy :: proxies =>
    match parsePrefix proxy with
    | .error err =>
      .error ("auth.trusted_header: trusted_proxies " ++ quote proxy ++ " is not a CIDR: " ++ err)
    | .ok cidr => (prefixesLoop proxies).map (masked cidr :: ·)

def TrustedHeaderConfig.prefixes (c : TrustedHeaderConfig) : Except String (List Prefix) :=
  prefixesLoop c.trustedProxies

def TrustedHeaderConfig.validate (c : TrustedHeaderConfig) : Except String Unit :=
  firstError
    [check (c.userHeader = "") "auth.trusted_header: user_header must be set",
      check c.trustedProxies.isEmpty "auth.trusted_header: trusted_proxies must not be empty",
      c.prefixes.map fun _ => ()]

def validateNames (place : String) (lists : List (List String)) : Except String Unit :=
  firstError <| lists.map fun list =>
    check (list.contains "") (place ++ ": allow-list entries must not be empty")

def RouteAuthorizationConfig.validate (c : RouteAuthorizationConfig) : Except String Unit :=
  firstError
    [check (!("/".toList.isPrefixOf c.pathPrefix.toList))
        ("auth.authorization.routes: path_prefix " ++ quote c.pathPrefix ++ " must start with /"),
      check (Path.clean c.pathPrefix = "/")
        ("auth.authorization.routes: path_prefix / covers only the root; " ++
          "use allowed_users/allowed_groups for everything"),
      check (c.allowedUsers.isEmpty && c.allowedGroups.isEmpty)
        ("auth.authorization.routes: " ++ quote c.pathPrefix ++
          ": at least one of allowed_users or allowed_groups must not be empty"),
      validateNames ("auth.authorization.routes: " ++ quote c.pathPrefix)
        [c.allowedUsers, c.allowedGroups]]

def AuthorizationConfig.validate (c : AuthorizationConfig) : Except String Unit :=
  firstError <|
    check (c.allowedUsers.isEmpty && c.allowedGroups.isEmpty && c.routes.isEmpty)
      ("auth.authorization: at least one of allowed_users, allowed_groups or routes " ++
        "must not be empty") ::
    validateNames "auth.authorization" [c.allowedUsers, c.allowedGroups] ::
    c.routes.map RouteAuthorizationConfig.validate

/-- `Config.UnmarshalYAML`: the blocks are checked as they are read, then the config itself. -/
def Config.validate (c : Config) : Except String Unit :=
  firstError
    [validateBlock BasicConfig.validate c.basic,
      validateBlock OIDCConfig.validate c.oidc,
      validateBlock TrustedHeaderConfig.validate c.trustedHeader,
      validateBlock AuthorizationConfig.validate c.authorization,
      check (c.basic.isNone && c.oidc.isNone && c.trustedHeader.isNone)
        "auth: at least one of basic, oidc or trusted_header must be configured"]

/-! ## What a valid config promises -/

/-- No rule of a valid config is for the root. -/
theorem Config.clean_ne_root {c : Config} (hvalid : c.validate = .ok ()) {authz : AuthorizationConfig}
    (hauthz : c.authorization = some authz) {route : RouteAuthorizationConfig}
    (hroute : route ∈ authz.routes) : Path.clean route.pathPrefix ≠ "/" := by
  unfold Config.validate at hvalid
  rw [firstError_eq_ok] at hvalid
  have hblock : validateBlock AuthorizationConfig.validate c.authorization = .ok () :=
    hvalid _ (by simp)
  have hok := validateBlock_eq_ok.1 hblock authz hauthz
  unfold AuthorizationConfig.validate at hok
  rw [firstError_eq_ok] at hok
  have hrule : route.validate = .ok () :=
    hok _ (List.mem_cons_of_mem _ (List.mem_cons_of_mem _ (List.mem_map_of_mem hroute)))
  unfold RouteAuthorizationConfig.validate at hrule
  rw [firstError_eq_ok] at hrule
  have hclean := check_eq_ok.1 (hrule _ (List.mem_cons_of_mem _ List.mem_cons_self))
  exact of_decide_eq_false hclean

end Auth
end Proxeus
