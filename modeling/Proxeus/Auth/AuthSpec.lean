import Proxeus.Auth.Auth

/-!
# Auth.AuthSpec

Who is served. The decision on a request is made of three things only: whether its path is exempt or
it is a preflight, the first answer of the providers, and the rules that cover the path
(`decision_eq`). So nothing after the first answer matters, a rule can only take requests away, and
the order of the rules does not show, over a whole run of requests as well, since the rules never
touch what the providers remember.
-/

namespace Proxeus
namespace Auth

open Lib

section

variable [Packages]

/-! ## What a config asks for -/

/-- An exemption other than the root covers the paths that begin with its segments, the root itself
only. -/
def Covers (pathPrefix path : String) : Prop :=
  if Path.clean pathPrefix = "/" then Path.clean path = "/"
  else Path.segments (Path.clean pathPrefix) <+: Path.segments (Path.clean path)

/-- A pair of allow-lists passes an identity by its name or by one of its groups, and if both are
empty. -/
def Passes (users groups : List String) (id : Identity) : Prop :=
  (users = [] ∧ groups = []) ∨ id.name ∈ users ∨ ∃ group ∈ id.groups, group ∈ groups

/-- The identity passes the top-level lists, and those of each rule whose segments the path begins
with. -/
def Config.Permits (cfg : Config) (id : Identity) (path : String) : Prop :=
  ∀ authz ∈ cfg.authorization, Passes authz.allowedUsers authz.allowedGroups id ∧
    ∀ route ∈ authz.routes,
      Path.segments (Path.clean route.pathPrefix) <+: Path.segments (Path.clean path) →
        Passes route.allowedUsers route.allowedGroups id

/-- `answer` is that of the first provider that does not report missing credentials. -/
def FirstAnswer (providers : List Provider) (r : Request) (answer : Except AuthError Identity) :
    Prop :=
  ∃ before p later, providers = before ++ p :: later ∧
    (∀ q ∈ before, q.answer r = .error .noCredentials) ∧ p.answer r = answer ∧
    answer ≠ .error .noCredentials

def Response.Served (response : Response) : Prop :=
  ∃ id, response = .served id

/-- `cfg'` is `cfg` with one more rule, somewhere among the others. -/
def AddsRoute (cfg cfg' : Config) (route : RouteAuthorizationConfig) : Prop :=
  ∃ users groups above below,
    cfg.authorization.getD ⟨[], [], []⟩ = ⟨users, groups, above ++ below⟩ ∧
    cfg' = { cfg with authorization := some ⟨users, groups, above ++ route :: below⟩ }

/-- `cfg'` is `cfg` with its rules in another order. -/
def PermutesRoutes (cfg cfg' : Config) : Prop :=
  ∃ users groups routes routes', cfg.authorization = some ⟨users, groups, routes⟩ ∧
    List.Perm routes' routes ∧
    cfg' = { cfg with authorization := some ⟨users, groups, routes'⟩ }

/-! ## Policies and paths -/

omit [Packages] in
theorem allows_iff (p : Policy) (id : Identity) :
    p.allows id = true ↔ Passes p.users p.groups id := by
  unfold Policy.allows Passes
  simp [or_assoc]

omit [Packages] in
theorem under_iff (clean pathPrefix : String) :
    under clean pathPrefix = true ↔
      clean = pathPrefix ∨ (pathPrefix ++ "/").toList <+: clean.toList := by
  unfold under
  simp

omit [Packages] in
theorem under_iff_covers (pathPrefix path : String) :
    under (Path.clean path) (Path.clean pathPrefix) = true ↔ Covers pathPrefix path := by
  rw [under_iff]
  unfold Covers
  split
  · rename_i hroot
    rw [hroot]
    exact or_iff_left (Path.slashes_not_prefix path)
  · rename_i hroot
    exact Path.under_iff_segments hroot

theorem under_iff_segments {cfg : Config} (hvalid : cfg.validate = .ok ())
    {authz : AuthorizationConfig} (hauthz : cfg.authorization = some authz)
    {route : RouteAuthorizationConfig} (hroute : route ∈ authz.routes) (path : String) :
    under (Path.clean path) (Path.clean route.pathPrefix) = true ↔
      Path.segments (Path.clean route.pathPrefix) <+: Path.segments (Path.clean path) := by
  rw [under_iff]
  exact Path.under_iff_segments (cfg.clean_ne_root hvalid hauthz hroute)

/-! ## The first answer -/

/-- The answer the chain comes to. -/
def firstAnswer (r : Request) : List Provider → Except AuthError Identity
  | [] => .error .noCredentials
  | p :: ps =>
    match p.answer r with
    | .error .noCredentials => firstAnswer r ps
    | answer => answer

/-- The providers after a request. -/
def advance (r : Request) : List Provider → List Provider
  | [] => []
  | p :: ps =>
    match p.answer r with
    | .error .noCredentials => (p.authenticate r).2 :: advance r ps
    | _ => (p.authenticate r).2 :: ps

theorem firstAnswer_cons_of_missing {p : Provider} {r : Request}
    (h : p.answer r = .error .noCredentials) (ps : List Provider) :
    firstAnswer r (p :: ps) = firstAnswer r ps := by
  simp only [firstAnswer, h]

theorem firstAnswer_cons_of_answer {p : Provider} {r : Request}
    (h : p.answer r ≠ .error .noCredentials) (ps : List Provider) :
    firstAnswer r (p :: ps) = p.answer r := by
  unfold firstAnswer
  split
  · rename_i hmissing
    exact absurd hmissing h
  · rfl

theorem firstAnswer_append {before : List Provider} {p : Provider} {r : Request}
    (hbefore : ∀ q ∈ before, q.answer r = .error .noCredentials)
    (hp : p.answer r ≠ .error .noCredentials) (later : List Provider) :
    firstAnswer r (before ++ p :: later) = p.answer r := by
  induction before with
  | nil => exact firstAnswer_cons_of_answer hp later
  | cons q before ih =>
    rw [List.cons_append, firstAnswer_cons_of_missing (hbefore q List.mem_cons_self)]
    exact ih fun q hq => hbefore q (List.mem_cons_of_mem _ hq)

theorem firstAnswer_eq_iff {providers : List Provider} {r : Request}
    {answer : Except AuthError Identity} (hanswer : answer ≠ .error .noCredentials) :
    firstAnswer r providers = answer ↔ FirstAnswer providers r answer := by
  constructor
  · intro h
    induction providers with
    | nil => exact absurd h.symm hanswer
    | cons p ps ih =>
      by_cases hp : p.answer r = .error .noCredentials
      · rw [firstAnswer_cons_of_missing hp] at h
        obtain ⟨before, q, later, rfl, hbefore, hq, hne⟩ := ih h
        refine ⟨p :: before, q, later, rfl, ?_, hq, hne⟩
        intro q' hq'
        rcases List.mem_cons.1 hq' with rfl | hq'
        · exact hp
        · exact hbefore q' hq'
      · rw [firstAnswer_cons_of_answer hp] at h
        exact ⟨[], p, ps, rfl, by simp, h, hanswer⟩
  · rintro ⟨before, p, later, rfl, hbefore, rfl, hne⟩
    exact firstAnswer_append hbefore hne later

/-! ## One request -/

namespace Authenticator

/-- What is made of an answer of the chain. -/
def verdict (a : Authenticator) (path : String) : Except AuthError Identity → Response
  | .error _ => a.unauthorized
  | .ok id => if a.allowed id path then .served (some id) else forbidden

theorem providersLoop_eq (a : Authenticator) (r : Request) (providers : List Provider) :
    a.providersLoop r providers =
      (a.verdict r.path (firstAnswer r providers), advance r providers) := by
  induction providers with
  | nil => rfl
  | cons p ps ih =>
    unfold providersLoop firstAnswer advance Provider.answer
    rcases h : p.authenticate r with ⟨_ | id, p'⟩
    · rename_i err
      cases err with
      | noCredentials => simp only [ih]
      | rejected text => rfl
    · simp only [verdict]
      cases a.allowed id r.path <;> rfl

/-- The decision, and what becomes of the providers. -/
theorem middleware_eq (a : Authenticator) (r : Request) :
    a.middleware r =
      if a.exempt r.path || isPreflight r then (.served none, a)
      else (a.verdict r.path (firstAnswer r a.providers),
        { a with providers := advance r a.providers }) := by
  unfold middleware
  rw [providersLoop_eq]

theorem served_verdict_iff (a : Authenticator) (path : String)
    (answer : Except AuthError Identity) :
    (a.verdict path answer).Served ↔ ∃ id, answer = .ok id ∧ a.allowed id path = true := by
  cases answer with
  | error err =>
    simp [verdict, unauthorized, Response.Served]
  | ok id =>
    cases h : a.allowed id path with
    | false => simp [verdict, h, forbidden, Response.Served]
    | true => simp [verdict, h, Response.Served]

theorem served_middleware_iff (a : Authenticator) (r : Request) :
    (a.middleware r).1.Served ↔
      a.exempt r.path = true ∨ isPreflight r = true ∨
        ∃ id, FirstAnswer a.providers r (.ok id) ∧ a.allowed id r.path = true := by
  rw [middleware_eq]
  by_cases hfree : (a.exempt r.path || isPreflight r) = true
  · rw [if_pos hfree]
    rw [Bool.or_eq_true] at hfree
    constructor
    · intro _
      exact hfree.elim .inl fun h => .inr (.inl h)
    · intro _
      exact ⟨none, rfl⟩
  · rw [if_neg hfree]
    simp only [Bool.or_eq_true, not_or] at hfree
    have hfirst : ∀ id : Identity, firstAnswer r a.providers = .ok id ↔
        FirstAnswer a.providers r (.ok id) := by
      intro id
      refine firstAnswer_eq_iff ?_
      intro h
      cases h
    rw [served_verdict_iff]
    simp only [hfree.1, hfree.2, hfirst, Bool.false_eq_true, false_or]

/-! ## A run -/

/-- Two authenticators that differ in their rules only. -/
structure SameFront (a a' : Authenticator) : Prop where
  exemptPaths : a.exemptPaths = a'.exemptPaths
  providers : a.providers = a'.providers
  challenge : a.challenge = a'.challenge

theorem SameFront.exempt {a a' : Authenticator} (h : SameFront a a') (path : String) :
    a.exempt path = a'.exempt path := by
  unfold Authenticator.exempt
  rw [h.exemptPaths]

/-- The rules do not touch what a request leaves behind. -/
theorem SameFront.middleware {a a' : Authenticator} (h : SameFront a a') (r : Request) :
    SameFront (a.middleware r).2 (a'.middleware r).2 := by
  rw [middleware_eq, middleware_eq, h.exempt]
  split
  · exact h
  · exact ⟨h.exemptPaths, by rw [h.providers], h.challenge⟩

theorem SameFront.after {a a' : Authenticator} (h : SameFront a a') (requests : List Request) :
    SameFront (a.after requests) (a'.after requests) := by
  unfold Authenticator.after
  induction requests generalizing a a' with
  | nil => exact h
  | cons r requests ih => exact ih (h.middleware r)

theorem middleware_kept (a : Authenticator) (r : Request) :
    (a.middleware r).2.exemptPaths = a.exemptPaths ∧ (a.middleware r).2.authz = a.authz := by
  rw [middleware_eq]
  split
  · exact ⟨rfl, rfl⟩
  · exact ⟨rfl, rfl⟩

theorem after_kept (a : Authenticator) (requests : List Request) :
    (a.after requests).exemptPaths = a.exemptPaths ∧ (a.after requests).authz = a.authz := by
  unfold Authenticator.after
  induction requests generalizing a with
  | nil => exact ⟨rfl, rfl⟩
  | cons r requests ih =>
    obtain ⟨hpaths, hauthz⟩ := ih (a.middleware r).2
    obtain ⟨hstep, hstep'⟩ := a.middleware_kept r
    exact ⟨hpaths.trans hstep, hauthz.trans hstep'⟩

/-- Rules that allow less serve less. -/
theorem SameFront.served {a a' : Authenticator} (h : SameFront a a') {r : Request}
    (hallowed : ∀ id, a.allowed id r.path = true → a'.allowed id r.path = true)
    (hserved : (a.middleware r).1.Served) : (a'.middleware r).1.Served := by
  rw [served_middleware_iff] at hserved ⊢
  rcases hserved with hexempt | hpreflight | ⟨id, hfirst, hid⟩
  · exact .inl (h.exempt r.path ▸ hexempt)
  · exact .inr (.inl hpreflight)
  · exact .inr (.inr ⟨id, h.providers ▸ hfirst, hallowed id hid⟩)

/-- What a response is made of. -/
theorem response_congr {a a' : Authenticator} {r r' : Request}
    (hexempt : a.exempt r.path = a'.exempt r'.path) (hpreflight : isPreflight r = isPreflight r')
    (hfirst : firstAnswer r a.providers = firstAnswer r' a'.providers)
    (hverdict : ∀ answer, a.verdict r.path answer = a'.verdict r'.path answer) :
    (a.middleware r).1 = (a'.middleware r').1 := by
  rw [middleware_eq, middleware_eq, hexempt, hpreflight]
  split
  · rfl
  · rw [hverdict, hfirst]

/-- Rules that allow the same answer the same. -/
theorem SameFront.response_eq {a a' : Authenticator} (h : SameFront a a') {r : Request}
    (hallowed : ∀ id, a.allowed id r.path = a'.allowed id r.path) :
    (a.middleware r).1 = (a'.middleware r).1 := by
  refine response_congr (h.exempt r.path) rfl (by rw [h.providers]) ?_
  intro answer
  cases answer with
  | error err =>
    unfold verdict unauthorized
    rw [h.challenge]
  | ok id =>
    unfold verdict
    simp only [hallowed id]

/-- After the deciding provider nothing matters, neither the providers nor what else the request
carries. -/
theorem middleware_of_decided {a : Authenticator} {before : List Provider} {p : Provider}
    {later : List Provider} (hproviders : a.providers = before ++ p :: later) {r r' : Request}
    (hpath : r'.path = r.path) (hpreflight : isPreflight r' = isPreflight r)
    (hbefore : ∀ q ∈ before,
      q.answer r = .error .noCredentials ∧ q.answer r' = .error .noCredentials)
    (hanswer : p.answer r' = p.answer r) (hp : p.answer r ≠ .error .noCredentials)
    (later' : List Provider) :
    (({ a with providers := before ++ p :: later' } : Authenticator).middleware r').1 =
      (a.middleware r).1 := by
  have hfirst : firstAnswer r a.providers = p.answer r := by
    rw [hproviders]
    exact firstAnswer_append (fun q hq => (hbefore q hq).1) hp later
  have hfirst' : firstAnswer r' (before ++ p :: later') = p.answer r := by
    rw [← hanswer] at hp ⊢
    exact firstAnswer_append (fun q hq => (hbefore q hq).2) hp later'
  refine response_congr ?_ hpreflight (hfirst'.trans hfirst.symm) ?_
  · rw [hpath]
    rfl
  · intro answer
    rw [hpath]
    rfl

end Authenticator

/-! ## From a config -/

/-- The parts of an authenticator that `New` takes from the config. -/
structure Built (cfg : Config) (defaultExempt : List String) (a : Authenticator) : Prop where
  exemptPaths : a.exemptPaths = (cfg.exemptPaths.getD defaultExempt).map Path.clean
  authz : a.authz = cfg.authorization.map newAuthorization

theorem new_eq_ok {cfg : Config} {defaultExempt : List String} {a : Authenticator} :
    new (some cfg) defaultExempt = .ok (some a) ↔ ∃ providers challenges,
      newProviders cfg = .ok (providers, challenges) ∧
        a = newAuthenticator cfg defaultExempt providers challenges := by
  simp only [new]
  rcases h : newProviders cfg with err | ⟨providers, challenges⟩
  · simp
  · constructor
    · intro hnew
      exact ⟨providers, challenges, rfl, (Option.some.inj (Except.ok.inj hnew)).symm⟩
    · rintro ⟨providers', challenges', heq, rfl⟩
      cases heq
      rfl

theorem built_of_new {cfg : Config} {defaultExempt : List String} {a : Authenticator}
    (hnew : new (some cfg) defaultExempt = .ok (some a)) : Built cfg defaultExempt a := by
  obtain ⟨providers, challenges, _, rfl⟩ := new_eq_ok.1 hnew
  exact ⟨rfl, rfl⟩

/-- A config with other rules gives an authenticator that differs in its rules. -/
theorem exists_new_authorization {cfg : Config} {defaultExempt : List String} {a : Authenticator}
    (hnew : new (some cfg) defaultExempt = .ok (some a)) (authz : Option AuthorizationConfig) :
    ∃ a', new (some { cfg with authorization := authz }) defaultExempt = .ok (some a') ∧
      Authenticator.SameFront a' a := by
  obtain ⟨providers, challenges, hproviders, rfl⟩ := new_eq_ok.1 hnew
  exact ⟨_, new_eq_ok.2 ⟨providers, challenges, hproviders, rfl⟩, rfl, rfl, rfl⟩

namespace Built

variable {cfg : Config} {defaultExempt : List String} {a : Authenticator}

theorem after (h : Built cfg defaultExempt a) (requests : List Request) :
    Built cfg defaultExempt (a.after requests) := by
  obtain ⟨hpaths, hauthz⟩ := a.after_kept requests
  exact ⟨hpaths.trans h.exemptPaths, hauthz.trans h.authz⟩

theorem exempt_iff (h : Built cfg defaultExempt a) (path : String) :
    a.exempt path = true ↔ ∃ p ∈ cfg.exemptPaths.getD defaultExempt, Covers p path := by
  unfold Authenticator.exempt
  rw [h.exemptPaths]
  simp only [List.any_eq_true, List.mem_map, exists_exists_and_eq_and, under_iff_covers]

/-- What the compiled rules allow, in the words of the config. -/
theorem allowed_iff_rules (h : Built cfg defaultExempt a) (id : Identity) (path : String) :
    a.allowed id path = true ↔ ∀ authz ∈ cfg.authorization,
      Passes authz.allowedUsers authz.allowedGroups id ∧
        ∀ route ∈ authz.routes, under (Path.clean path) (Path.clean route.pathPrefix) = true →
          Passes route.allowedUsers route.allowedGroups id := by
  unfold Authenticator.allowed
  rw [h.authz]
  cases cfg.authorization with
  | none => simp
  | some authz =>
    simp only [Option.map_some, newAuthorization, Bool.and_eq_true, allows_iff, Option.mem_some_iff,
      forall_eq', Bool.not_eq_true', List.any_eq_false, List.mem_map, forall_exists_index, and_imp,
      forall_apply_eq_imp_iff₂, not_and, Bool.not_eq_false]
    rfl

theorem allowed_iff (h : Built cfg defaultExempt a) (hvalid : cfg.validate = .ok ())
    (id : Identity) (path : String) : a.allowed id path = true ↔ cfg.Permits id path := by
  rw [h.allowed_iff_rules]
  unfold Config.Permits
  refine forall₂_congr fun authz hauthz => and_congr_right fun _ => forall₂_congr fun route hroute => ?_
  rw [under_iff_segments hvalid hauthz hroute]

/-- One more rule allows no more. -/
theorem allowed_of_addsRoute (h : Built cfg defaultExempt a) {cfg' : Config}
    {route : RouteAuthorizationConfig} (hadds : AddsRoute cfg cfg' route) {a' : Authenticator}
    (h' : Built cfg' defaultExempt a') {id : Identity} {path : String}
    (hallowed : a'.allowed id path = true) : a.allowed id path = true := by
  obtain ⟨users, groups, above, below, hauthz, rfl⟩ := hadds
  rw [h'.allowed_iff_rules] at hallowed
  rw [h.allowed_iff_rules]
  obtain ⟨htop, hroutes⟩ := hallowed _ rfl
  intro authz hmem
  rw [Option.mem_def] at hmem
  rw [hmem, Option.getD_some] at hauthz
  subst hauthz
  refine ⟨htop, fun rule hrule => hroutes rule ?_⟩
  rcases List.mem_append.1 hrule with hrule | hrule
  · exact List.mem_append_left _ hrule
  · exact List.mem_append_right _ (List.mem_cons_of_mem _ hrule)

/-- The order of the rules does not show. -/
theorem allowed_of_permutesRoutes (h : Built cfg defaultExempt a) {cfg' : Config}
    (hperm : PermutesRoutes cfg cfg') {a' : Authenticator} (h' : Built cfg' defaultExempt a')
    (id : Identity) (path : String) : a'.allowed id path = a.allowed id path := by
  obtain ⟨users, groups, routes, routes', hauthz, hroutes, rfl⟩ := hperm
  rw [Bool.eq_iff_iff, h'.allowed_iff_rules, h.allowed_iff_rules, hauthz]
  simp only [Option.mem_some_iff, forall_eq', hroutes.mem_iff]

end Built

/-! ## Who is served -/

/-- At any point of a run, a request is served if and only if its path is exempt, it is a preflight,
or the first answer of the chain is an identity that the config permits. Nothing after that answer
changes the response, one more rule serves no more, and rules in another order serve the same. -/
theorem middleware_serves_iff {cfg : Config} (hvalid : cfg.validate = .ok ())
    {defaultExempt : List String} {a : Authenticator}
    (hnew : new (some cfg) defaultExempt = .ok (some a)) :
    (∀ history r, ((a.after history).middleware r).1.Served ↔
      (∃ p ∈ cfg.exemptPaths.getD defaultExempt, Covers p r.path) ∨ isPreflight r = true ∨
        ∃ id, FirstAnswer (a.after history).providers r (.ok id) ∧ cfg.Permits id r.path) ∧
    (∀ history before p later, (a.after history).providers = before ++ p :: later →
      ∀ r r' : Request, r'.path = r.path → isPreflight r' = isPreflight r →
        (∀ q ∈ before,
          q.answer r = .error .noCredentials ∧ q.answer r' = .error .noCredentials) →
        p.answer r' = p.answer r → p.answer r ≠ .error .noCredentials → ∀ later',
          (({ a.after history with providers := before ++ p :: later' } :
              Authenticator).middleware r').1 = ((a.after history).middleware r).1) ∧
    (∀ cfg' route, AddsRoute cfg cfg' route → ∃ a',
      new (some cfg') defaultExempt = .ok (some a') ∧ ∀ history r,
        ((a'.after history).middleware r).1.Served → ((a.after history).middleware r).1.Served) ∧
    (∀ cfg', PermutesRoutes cfg cfg' → ∃ a',
      new (some cfg') defaultExempt = .ok (some a') ∧ ∀ history r,
        ((a'.after history).middleware r).1 = ((a.after history).middleware r).1) := by
  have hbuilt := built_of_new hnew
  refine ⟨?_, ?_, ?_, ?_⟩
  · intro history r
    rw [Authenticator.served_middleware_iff, (hbuilt.after history).exempt_iff]
    simp only [(hbuilt.after history).allowed_iff hvalid]
  · intro history before p later hproviders r r' hpath hpreflight hbefore hanswer hp later'
    exact Authenticator.middleware_of_decided hproviders hpath hpreflight hbefore hanswer hp later'
  · intro cfg' route hadds
    obtain ⟨a', hnew', hfront⟩ := exists_new_authorization hnew cfg'.authorization
    have hcfg' : { cfg with authorization := cfg'.authorization } = cfg' := by
      obtain ⟨users, groups, above, below, -, rfl⟩ := hadds
      rfl
    rw [hcfg'] at hnew'
    refine ⟨a', hnew', fun history r => (hfront.after history).served fun id hid => ?_⟩
    exact (hbuilt.after history).allowed_of_addsRoute hadds
      ((built_of_new hnew').after history) hid
  · intro cfg' hperm
    obtain ⟨a', hnew', hfront⟩ := exists_new_authorization hnew cfg'.authorization
    have hcfg' : { cfg with authorization := cfg'.authorization } = cfg' := by
      obtain ⟨users, groups, routes, routes', -, -, rfl⟩ := hperm
      rfl
    rw [hcfg'] at hnew'
    refine ⟨a', hnew', fun history r => (hfront.after history).response_eq fun id => ?_⟩
    exact (hbuilt.after history).allowed_of_permutesRoutes hperm
      ((built_of_new hnew').after history) id r.path

end

/-! ## A user with one password -/

/-- Packages that know one password and its hash, and no other credentials. -/
abbrev onePassword : Packages where
  quote s := "\"" ++ s ++ "\""
  Addr := Empty
  Prefix := Empty
  splitHostPort _ := none
  parseAddr _ := none
  unmap addr := addr
  parsePrefix _ := .error "no prefix"
  masked cidr := cidr
  contains _ _ := false
  basicAuth header :=
    if header = "Basic YWxpY2U6ZmFrZXBhc3N3b3Jk" then some ("alice", "fakepassword") else none
  bcryptCost hash :=
    if hash = "$2y$10$QOauhQNbBCuQDKes6eFzPeMqBSjb7Mr5DUmpZ/VcEd00UAV/LDeSi" then .ok 10
    else .error "not a hash"
  compareHashAndPassword hash password :=
    hash = "$2y$10$QOauhQNbBCuQDKes6eFzPeMqBSjb7Mr5DUmpZ/VcEd00UAV/LDeSi" &&
      password = "fakepassword"
  sha256Hex password := password
  Context := Unit
  Verifier := Empty
  newVerifier _ _ _ := .error "no issuer"
  verify _ _ _ := .error "no key"

attribute [local instance] onePassword

/-- One user, and a rule that she does not pass. -/
def aliceConfig : Config where
  exemptPaths := none
  basic := some ⟨[("alice", "$2y$10$QOauhQNbBCuQDKes6eFzPeMqBSjb7Mr5DUmpZ/VcEd00UAV/LDeSi")]⟩
  oidc := none
  trustedHeader := none
  authorization := some ⟨[], [], [⟨"/mcp", ["bob"], []⟩]⟩

def aliceRequest (path : String) : Request where
  method := "GET"
  path := path
  header name := if name = "Authorization" then "Basic YWxpY2U6ZmFrZXBhc3N3b3Jk" else ""
  remoteAddr := "192.0.2.1:4711"
  context := ()

def aliceAuthenticator : Authenticator :=
  newAuthenticator aliceConfig ["/metrics"]
    [.basic ⟨[("alice", "$2y$10$QOauhQNbBCuQDKes6eFzPeMqBSjb7Mr5DUmpZ/VcEd00UAV/LDeSi")], []⟩]
    ["Basic realm=\"proxeus\""]

/-- She is served beside the rule, also by what is remembered of her first request. -/
theorem middleware_serves_iff_alice :
    ((aliceAuthenticator.after [aliceRequest "/mcpx"]).middleware (aliceRequest "/mcpx")).1.Served := by
  have hvalid : aliceConfig.validate = .ok () := by decide +kernel
  have hnew : new (some aliceConfig) ["/metrics"] = .ok (some aliceAuthenticator) := rfl
  refine ((middleware_serves_iff hvalid hnew).1 [aliceRequest "/mcpx"] (aliceRequest "/mcpx")).2
    (.inr (.inr ⟨⟨"alice", [], "basic"⟩, ⟨[], _, [], rfl, by simp, ?_, by simp⟩, ?_⟩))
  · rfl
  · intro authz hauthz
    cases hauthz
    refine ⟨.inl ⟨rfl, rfl⟩, fun route hroute => ?_⟩
    cases List.mem_singleton.1 hroute
    intro hcovers
    exact absurd hcovers (by decide +kernel)

end Auth
end Proxeus
