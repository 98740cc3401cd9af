import Proxeus.Auth.Provider

/-!
# Auth.Auth

`pkg/auth/auth.go`: the provider chain in front of a handler. `Middleware` is a step from a request
and the state of the providers to a response and their new state.
-/

namespace Proxeus
namespace Auth

open Lib

variable [Packages]

/-- `policy` -/
structure Policy where
  users : List String
  groups : List String

structure RoutePolicy where
  pathPrefix : String
  policy : Policy

/-- `authorization` -/
structure Authorization where
  policy : Policy
  routes : List RoutePolicy

structure Authenticator where
  exemptPaths : List String
  providers : List Provider
  challenge : String
  authz : Option Authorization

def newRoutePolicy (route : RouteAuthorizationConfig) : RoutePolicy :=
  ⟨Path.clean route.pathPrefix, ⟨route.allowedUsers, route.allowedGroups⟩⟩

def newAuthorization (cfg : AuthorizationConfig) : Authorization :=
  ⟨⟨cfg.allowedUsers, cfg.allowedGroups⟩, cfg.routes.map newRoutePolicy⟩

def Policy.allows (p : Policy) (id : Identity) : Bool :=
  (p.users.isEmpty && p.groups.isEmpty) || p.users.contains id.name ||
    id.groups.any fun group => p.groups.contains group

/-- A provider that may not be configured, with its challenge. -/
def optionalProvider {α : Type} (build : α → Except String Provider) (challenges : List String) :
    Option α → Except String (List Provider × List String)
  | none => .ok ([], [])
  | some cfg => (build cfg).map fun p => ([p], challenges)

/-- The providers of a config in their order, and what each contributes to the challenge. -/
def newProviders (cfg : Config) : Except String (List Provider × List String) := do
  let (trusted, trustedChallenges) ← optionalProvider
    (fun c => (newTrustedHeaderProvider c).map .trustedHeader) [] cfg.trustedHeader
  let (basic, basicChallenges) ← optionalProvider
    (fun c => .ok (.basic (newBasicProvider c))) ["Basic realm=\"proxeus\""] cfg.basic
  let (oidc, oidcChallenges) ← optionalProvider
    (fun c => (newOIDCProvider c).map .oidc) ["Bearer"] cfg.oidc
  return (trusted ++ basic ++ oidc, trustedChallenges ++ basicChallenges ++ oidcChallenges)

def newAuthenticator (cfg : Config) (defaultExempt : List String) (providers : List Provider)
    (challenges : List String) : Authenticator where
  exemptPaths := (cfg.exemptPaths.getD defaultExempt).map Path.clean
  providers := providers
  challenge := String.intercalate ", " challenges
  authz := cfg.authorization.map newAuthorization

/-- `New`. Without a config there is no authenticator. -/
def new (cfg : Option Config) (defaultExempt : List String) :
    Except String (Option Authenticator) :=
  match cfg with
  | none => .ok none
  | some cfg =>
    match newProviders cfg with
    | .error err => .error err
    | .ok (providers, challenges) =>
      .ok (some (newAuthenticator cfg defaultExempt providers challenges))

/-! ## A request -/

/-- What is answered: the handler serves the request, with the identity if there is one, or it is
rejected with a status, its text and the `WWW-Authenticate` header. -/
inductive Response where
  | served (id : Option Identity)
  | rejected (status : Nat) (text : String) (challenge : Option String)
deriving DecidableEq

/-- `under` -/
def under (clean pathPrefix : String) : Bool :=
  clean == pathPrefix || (pathPrefix ++ "/").toList.isPrefixOf clean.toList

def isPreflight (r : Request) : Bool :=
  r.method == "OPTIONS" && r.header "Access-Control-Request-Method" != ""

namespace Authenticator

def exempt (a : Authenticator) (urlPath : String) : Bool :=
  a.exemptPaths.any fun p => under (Path.clean urlPath) p

def allowed (a : Authenticator) (id : Identity) (urlPath : String) : Bool :=
  match a.authz with
  | none => true
  | some authz =>
    authz.policy.allows id &&
      !(authz.routes.any fun route =>
        under (Path.clean urlPath) route.pathPrefix && !route.policy.allows id)

def unauthorized (a : Authenticator) : Response :=
  .rejected 401 "Unauthorized" (if a.challenge = "" then none else some a.challenge)

def forbidden : Response :=
  .rejected 403 "Forbidden" none

/-- The loop of `Middleware` over the providers. -/
def providersLoop (a : Authenticator) (r : Request) : List Provider → Response × List Provider
  | [] => (a.unauthorized, [])
  | p :: ps =>
    match p.authenticate r with
    | (.error .noCredentials, p') =>
      let (response, ps') := a.providersLoop r ps
      (response, p' :: ps')
    | (.error (.rejected _), p') => (a.unauthorized, p' :: ps)
    | (.ok id, p') =>
      if !a.allowed id r.path then (forbidden, p' :: ps) else (.served (some id), p' :: ps)

/-- `Middleware` -/
def middleware (a : Authenticator) (r : Request) : Response × Authenticator :=
  if a.exempt r.path || isPreflight r then (.served none, a)
  else
    let (response, providers) := a.providersLoop r a.providers
    (response, { a with providers })

/-- The authenticator after a run of requests. -/
def after (a : Authenticator) (requests : List Request) : Authenticator :=
  requests.foldl (fun a r => (a.middleware r).2) a

end Authenticator

end Auth
end Proxeus
