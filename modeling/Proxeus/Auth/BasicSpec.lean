import Mathlib.Data.List.Nodup
import Mathlib.Order.Monotone.Basic
import Proxeus.Auth.Provider
import Proxeus.Lib.Memo
import Proxeus.Lib.Text

/-!
# Auth.BasicSpec

What basic auth remembers. A provider is a memo over the check of a password (`authenticate_eq`), so
that its answers are those of a check of every call when requests with one key pass or fail together
(`authenticate_eq_compareEvery_iff`). The key of a user does not end where the hash begins, and the hash
may have more behind its end, so two users can share their keys. One user can have many keys too, since
bcrypt reads only so much of a password: `length_verified_le` says when each has one.
-/

namespace Proxeus
namespace Auth

open Lib

section

variable [Packages]

open Packages

/-! ## Without a memory -/

/-- Basic auth that compares the password of every call with its hash. -/
def compareEvery (users : List (String × String)) (r : Request) : Except AuthError Identity :=
  match credentials r "Basic" with
  | none => .error .noCredentials
  | some _ =>
    match basicAuth (r.header "Authorization") with
    | none => .error (.rejected "basic: malformed Authorization header")
    | some (user, password) =>
      let invalid : AuthError :=
        .rejected ("basic: invalid credentials for user " ++ quote user)
      match users.lookup user with
      | none => .error invalid
      | some hash =>
        if compareHashAndPassword hash password then .ok ⟨user, [], "basic"⟩
        else .error invalid

/-- A configured user, the hash and the password of a request. -/
structure Presented where
  user : String
  hash : String
  password : String

/-- What a request presents, if its user is configured. -/
def presented (users : List (String × String)) (r : Request) : Option Presented :=
  match credentials r "Basic" with
  | none => none
  | some _ =>
    match basicAuth (r.header "Authorization") with
    | none => none
    | some (user, password) =>
      (users.lookup user).map fun hash => ⟨user, hash, password⟩

def Presented.key (c : Presented) : String := verifiedKey c.user c.hash c.password

def Presented.matches (c : Presented) : Bool := compareHashAndPassword c.hash c.password

/-- The key of a request. -/
def requestKey (users : List (String × String)) (r : Request) : Option String :=
  (presented users r).map Presented.key

/-- Whether a request presents a password that its hash accepts. -/
def requestMatches (users : List (String × String)) (r : Request) : Bool :=
  (presented users r).any Presented.matches

/-- What is answered, from whether the password is right. -/
def respond (r : Request) (passed : Bool) : Except AuthError Identity :=
  match credentials r "Basic" with
  | none => .error .noCredentials
  | some _ =>
    match basicAuth (r.header "Authorization") with
    | none => .error (.rejected "basic: malformed Authorization header")
    | some (user, _) =>
      if passed then .ok ⟨user, [], "basic"⟩
      else .error (.rejected ("basic: invalid credentials for user " ++ quote user))

theorem presented_eq_some {users : List (String × String)} {r : Request} {c : Presented} :
    presented users r = some c ↔ (credentials r "Basic").isSome ∧
      basicAuth (r.header "Authorization") = some (c.user, c.password) ∧
      users.lookup c.user = some c.hash := by
  unfold presented
  cases credentials r "Basic" with
  | none => simp
  | some _ =>
    cases basicAuth (r.header "Authorization") with
    | none => simp
    | some up =>
      obtain ⟨user, password⟩ := up
      obtain ⟨user', hash', password'⟩ := c
      simp only [Option.map_eq_some_iff, Presented.mk.injEq, Option.isSome_some, true_and,
        Option.some.injEq, Prod.mk.injEq]
      constructor
      · rintro ⟨hash, hhash, rfl, rfl, rfl⟩
        exact ⟨⟨rfl, rfl⟩, hhash⟩
      · rintro ⟨⟨rfl, rfl⟩, hhash⟩
        exact ⟨hash', hhash, rfl, rfl, rfl⟩

theorem compareEvery_eq (users : List (String × String)) (r : Request) :
    compareEvery users r = respond r (checked (requestKey users) (requestMatches users) r) := by
  unfold compareEvery respond checked requestKey requestMatches presented
  cases credentials r "Basic" with
  | none => rfl
  | some _ =>
    cases basicAuth (r.header "Authorization") with
    | none => rfl
    | some c =>
      obtain ⟨user, password⟩ := c
      cases hhash : users.lookup user with
      | none => simp [hhash]
      | some hash => simp [hhash, Presented.matches]

/-! ## A provider is a memo -/

theorem authenticate_eq (p : BasicProvider) (r : Request) :
    p.authenticate r =
      (respond r (memoStep (requestKey p.users) (requestMatches p.users) p.verified r).1,
        { p with verified :=
            (memoStep (requestKey p.users) (requestMatches p.users) p.verified r).2 }) := by
  unfold BasicProvider.authenticate respond memoStep requestKey requestMatches presented
  cases credentials r "Basic" with
  | none => rfl
  | some _ =>
    cases basicAuth (r.header "Authorization") with
    | none => rfl
    | some c =>
      obtain ⟨user, password⟩ := c
      cases hhash : p.users.lookup user with
      | none => simp [hhash]
      | some hash =>
        simp only [hhash, Option.map_some, Option.any_some, BasicProvider.verify, Presented.key,
          Presented.matches]
        by_cases hseen : verifiedKey user hash password ∈ p.verified
        · simp [hseen]
        · cases hmatch : compareHashAndPassword hash password with
          | false => simp [hseen]
          | true => simp [hseen]

/-- What a provider remembers after a run is what the memo does. -/
theorem final_authenticate (p : BasicProvider) (rs : List Request) :
    final BasicProvider.authenticate p rs =
      { p with verified :=
          final (memoStep (requestKey p.users) (requestMatches p.users)) p.verified rs } := by
  induction rs generalizing p with
  | nil => rfl
  | cons r rs ih => rw [final, final, authenticate_eq, ih]

theorem outputs_authenticate (p : BasicProvider) (rs : List Request) :
    outputs BasicProvider.authenticate p rs =
      List.zipWith respond rs
        (outputs (memoStep (requestKey p.users) (requestMatches p.users)) p.verified rs) := by
  induction rs generalizing p with
  | nil => rfl
  | cons r rs ih => rw [outputs, outputs, authenticate_eq, ih, List.zipWith_cons_cons]

/-! ## Keys -/

/-- Where the digest begins: it is what follows the last zero. -/
theorem verifiedKey_inj (hsha : Function.Injective sha256Hex)
    (hhex : ∀ password, '\x00' ∉ (sha256Hex password).toList)
    {user hash password user' hash' password' : String}
    (h : verifiedKey user hash password = verifiedKey user' hash' password') :
    user ++ "\x00" ++ hash = user' ++ "\x00" ++ hash' ∧ password = password' := by
  have hsplit : ∀ u h p, (verifiedKey u h p).toList.reverse =
      (sha256Hex p).toList.reverse ++ '\x00' :: (u ++ "\x00" ++ h).toList.reverse := by
    intro u h p
    simp [verifiedKey]
  have hnotin : ∀ p, '\x00' ∉ (sha256Hex p).toList.reverse := by
    intro p hp
    exact hhex p (List.mem_reverse.mp hp)
  have hreverse := congrArg (fun s => s.toList.reverse) h
  simp only [hsplit] at hreverse
  obtain ⟨hdigest, hbefore⟩ := line_inj (hnotin password) (hnotin password') hreverse
  exact ⟨String.toList_inj.mp (List.reverse_inj.mp hbefore),
    hsha (String.toList_inj.mp (List.reverse_inj.mp hdigest))⟩

theorem presented_respond {users : List (String × String)} {r : Request} {c : Presented}
    (h : presented users r = some c) {passed passed' : Bool}
    (heq : respond r passed = respond r passed') : passed = passed' := by
  obtain ⟨hcredentials, hauth, -⟩ := presented_eq_some.mp h
  obtain ⟨_, hscheme⟩ := Option.isSome_iff_exists.mp hcredentials
  unfold respond at heq
  simp only [hscheme, hauth] at heq
  cases passed with
  | false =>
    cases passed' with
    | false => rfl
    | true => simp at heq
  | true =>
    cases passed' with
    | false => simp at heq
    | true => rfl

/-- What is remembered is the key of a request whose password has been compared with the hash. -/
theorem mem_verified_iff (cfg : BasicConfig) (rs : List Request) (key : String) :
    key ∈ (final BasicProvider.authenticate (newBasicProvider cfg) rs).verified ↔
      ∃ r ∈ rs, ∃ c, presented cfg.users r = some c ∧ c.matches = true ∧ c.key = key := by
  rw [final_authenticate]
  refine (mem_final_memo_iff [] rs key).trans ?_
  simp only [List.not_mem_nil, false_or, Lib.Passes, requestKey, requestMatches, newBasicProvider,
    Option.map_eq_some_iff, Option.any_eq_true]
  constructor
  · rintro ⟨r, hr, ⟨c, hc, hkey⟩, c', hc', hmatches⟩
    rw [hc] at hc'
    cases hc'
    exact ⟨r, hr, c, hc, hmatches, hkey⟩
  · rintro ⟨r, hr, c, hc, hmatches, hkey⟩
    exact ⟨r, hr, ⟨c, hc, hkey⟩, c, hc, hmatches⟩

/-! ## Answers -/

/-- Requests whose user and hash read the same are answered the same: no password that both can
present is accepted by the hash of one only. -/
def Unambiguous (users : List (String × String)) : Prop :=
  ∀ r r' c c', presented users r = some c → presented users r' = some c' →
    c.user ++ "\x00" ++ c.hash = c'.user ++ "\x00" ++ c'.hash → c.password = c'.password →
    c.matches = c'.matches

theorem requestKey_eq_some {users : List (String × String)} {r : Request} {key : String} :
    requestKey users r = some key ↔ ∃ c, presented users r = some c ∧ c.key = key :=
  Option.map_eq_some_iff

theorem requestMatches_of_presented {users : List (String × String)} {r : Request} {c : Presented}
    (h : presented users r = some c) : requestMatches users r = c.matches := by
  unfold requestMatches
  rw [h, Option.any_some]

theorem unambiguous_iff (hsha : Function.Injective sha256Hex)
    (hhex : ∀ password, '\x00' ∉ (sha256Hex password).toList) (users : List (String × String)) :
    (∀ r r' key, requestKey users r = some key → requestKey users r' = some key →
      requestMatches users r = requestMatches users r') ↔ Unambiguous users := by
  constructor
  · intro h r r' c c' hc hc' hsame hpassword
    have hkey : c'.key = c.key := by
      unfold Presented.key verifiedKey
      rw [hsame, hpassword]
    rw [← requestMatches_of_presented hc, ← requestMatches_of_presented hc']
    exact h r r' c.key (requestKey_eq_some.mpr ⟨c, hc, rfl⟩) (requestKey_eq_some.mpr ⟨c', hc', hkey⟩)
  · intro h r r' key hkey hkey'
    obtain ⟨c, hc, rfl⟩ := requestKey_eq_some.mp hkey
    obtain ⟨c', hc', hsame⟩ := requestKey_eq_some.mp hkey'
    obtain ⟨hbefore, hpassword⟩ := verifiedKey_inj hsha hhex hsame
    rw [requestMatches_of_presented hc, requestMatches_of_presented hc']
    exact h r r' c c' hc hc' hbefore.symm hpassword.symm

/-- The answers of a provider tell what those of its memo are. -/
theorem outputs_eq_of_respond {users : List (String × String)} {seen : List String}
    {rs : List Request}
    (h : List.zipWith respond rs (outputs (memoStep (requestKey users) (requestMatches users)) seen rs) =
      rs.map (compareEvery users)) :
    outputs (memoStep (requestKey users) (requestMatches users)) seen rs =
      rs.map (checked (requestKey users) (requestMatches users)) := by
  induction rs generalizing seen with
  | nil => rfl
  | cons r rs ih =>
    rw [outputs, List.zipWith_cons_cons, List.map_cons, compareEvery_eq] at h
    obtain ⟨hhead, htail⟩ := List.cons.inj h
    have hsame : (memoStep (requestKey users) (requestMatches users) seen r).1 =
        checked (requestKey users) (requestMatches users) r := by
      cases hc : presented users r with
      | none => simp [memoStep, checked, requestKey, hc]
      | some c => exact presented_respond hc hhead
    rw [outputs, List.map_cons, hsame, ih htail]

theorem outputs_authenticate_iff (cfg : BasicConfig) (rs : List Request) :
    outputs BasicProvider.authenticate (newBasicProvider cfg) rs = rs.map (compareEvery cfg.users) ↔
      outputs (memoStep (requestKey cfg.users) (requestMatches cfg.users)) [] rs =
        rs.map (checked (requestKey cfg.users) (requestMatches cfg.users)) := by
  rw [outputs_authenticate]
  constructor
  · exact outputs_eq_of_respond
  · intro h
    have hmemo : outputs (memoStep (requestKey (newBasicProvider cfg).users)
        (requestMatches (newBasicProvider cfg).users)) (newBasicProvider cfg).verified rs =
        rs.map (checked (requestKey cfg.users) (requestMatches cfg.users)) := h
    rw [hmemo, List.zipWith_map_right, List.zipWith_self]
    exact List.map_congr_left fun r _ => (compareEvery_eq cfg.users r).symm

/-- The memory does not show, and holds keys of verified passwords only, exactly when no two users can
be taken for each other. -/
theorem authenticate_cached_iff (hsha : Function.Injective sha256Hex)
    (hhex : ∀ password, '\x00' ∉ (sha256Hex password).toList) (cfg : BasicConfig) :
    (∀ rs, outputs BasicProvider.authenticate (newBasicProvider cfg) rs =
        rs.map (compareEvery cfg.users) ∧
      ∀ key ∈ (final BasicProvider.authenticate (newBasicProvider cfg) rs).verified,
        ∃ r ∈ rs, ∃ c, presented cfg.users r = some c ∧ c.matches = true ∧ c.key = key) ↔
      Unambiguous cfg.users := by
  rw [← unambiguous_iff hsha hhex, ← outputs_memo_iff]
  constructor
  · intro h rs
    exact (outputs_authenticate_iff cfg rs).mp (h rs).1
  · intro h rs
    exact ⟨(outputs_authenticate_iff cfg rs).mpr (h rs),
      fun key hkey => (mem_verified_iff cfg rs key).mp hkey⟩

/-! ## How much is remembered -/

/-- A request that is accepted presents the password that is remembered of its user, if one is. -/
def SamePassword (p : BasicProvider) (r : Request) : Prop :=
  ∀ c, presented p.users r = some c → c.matches = true → ∀ password,
    verifiedKey c.user c.hash password ∈ p.verified → password = c.password

/-- The user of a request, who owns its key. -/
def requestUser (users : List (String × String)) (r : Request) : Option String :=
  (presented users r).map Presented.user

theorem repeats_of_samePassword {p : BasicProvider} {r : Request} (h : SamePassword p r) :
    Repeats (requestKey p.users) (requestMatches p.users) (requestUser p.users) p.verified r := by
  rintro key ⟨hkey, hmatches⟩ r' key' hverified hkey' howner
  obtain ⟨c, hc, rfl⟩ := requestKey_eq_some.mp hkey
  obtain ⟨c', hc', rfl⟩ := requestKey_eq_some.mp hkey'
  rw [requestMatches_of_presented hc] at hmatches
  have huser : c'.user = c.user := by
    unfold requestUser at howner
    rw [hc, hc'] at howner
    exact Option.some.inj howner
  have hhash : c'.hash = c.hash := by
    have := (presented_eq_some.mp hc').2.2
    rw [huser, (presented_eq_some.mp hc).2.2] at this
    exact (Option.some.inj this).symm
  unfold Presented.key at hverified ⊢
  rw [huser, hhash] at hverified ⊢
  rw [h c hc hmatches c'.password hverified]

theorem meets_memo {p : BasicProvider} {rs : List Request}
    (h : Meets BasicProvider.authenticate SamePassword p rs) :
    Meets (memoStep (requestKey p.users) (requestMatches p.users))
      (Repeats (requestKey p.users) (requestMatches p.users) (requestUser p.users)) p.verified rs := by
  induction rs generalizing p with
  | nil => trivial
  | cons r rs ih =>
    obtain ⟨hr, hrest⟩ := h
    rw [authenticate_eq] at hrest
    exact ⟨repeats_of_samePassword hr, ih hrest⟩

/-- In a run of such requests no more is remembered than there are users. -/
theorem length_verified_le (cfg : BasicConfig) {rs : List Request}
    (h : Meets BasicProvider.authenticate SamePassword (newBasicProvider cfg) rs)
    {before : List Request} (hbefore : before <+: rs) :
    (final BasicProvider.authenticate (newBasicProvider cfg) before).verified.length ≤
      cfg.users.length := by
  obtain ⟨after, rfl⟩ := hbefore
  have hmeets := meets_memo h.of_append
  have howners : ∀ r key, Lib.Passes (requestKey cfg.users) (requestMatches cfg.users) r key →
      requestUser cfg.users r ∈ cfg.users.map fun u => some u.1 := by
    rintro r key ⟨hkey, -⟩
    obtain ⟨c, hc, -⟩ := requestKey_eq_some.mp hkey
    obtain ⟨above, below, hsplit, -⟩ := List.lookup_eq_some_iff.mp (presented_eq_some.mp hc).2.2
    unfold requestUser
    rw [hc, hsplit]
    simp
  have hle := length_final_memo_le howners hmeets
  rw [List.length_map] at hle
  rw [final_authenticate]
  exact hle

/-! ## Passwords that are read alike -/

/-- The bytes of a password and the zero behind it. -/
def terminated (password : String) : List UInt8 :=
  password.toList.flatMap String.utf8EncodeChar ++ [0]

/-- What bcrypt reads of a password, round and round. -/
def cycled (password : String) (i : Nat) : UInt8 :=
  (terminated password).getD (i % (terminated password).length) 0

/-- The comparison depends on no more than 72 bytes of it. -/
def ReadsCycled : Prop :=
  ∀ hash password password', (∀ i < 72, cycled password i = cycled password' i) →
    compareHashAndPassword hash password = compareHashAndPassword hash password'

/-- A password, and the same again behind a zero, `n` times. -/
def repeated (password : String) : Nat → String
  | 0 => password
  | n + 1 => password ++ "\x00" ++ repeated password n

omit [Packages] in
theorem terminated_repeated (password : String) (n : Nat) :
    terminated (repeated password n) = (List.replicate (n + 1) (terminated password)).flatten := by
  induction n with
  | zero => simp [repeated]
  | succ n ih =>
    rw [List.replicate_succ, List.flatten_cons, ← ih]
    simp only [terminated, repeated, String.toList_append, List.flatMap_append, List.append_assoc]
    rfl

omit [Packages] in
theorem getElem?_flatten_replicate (l : List UInt8) (n i : Nat) (hi : i < n * l.length) :
    (List.replicate n l).flatten[i]? = l[i % l.length]? := by
  induction n generalizing i with
  | zero => omega
  | succ n ih =>
    rw [List.replicate_succ, List.flatten_cons]
    rcases Nat.lt_or_ge i l.length with hlt | hge
    · rw [List.getElem?_append_left hlt, Nat.mod_eq_of_lt hlt]
    · have hrest : i - l.length < n * l.length := by
        rw [Nat.succ_mul] at hi
        omega
      rw [List.getElem?_append_right hge, ih _ hrest, ← Nat.mod_eq_sub_mod hge]

omit [Packages] in
theorem cycled_repeated (password : String) (n i : Nat) :
    cycled (repeated password n) i = cycled password i := by
  have hlength : (terminated (repeated password n)).length =
      (n + 1) * (terminated password).length := by
    rw [terminated_repeated]
    simp
  have hpos : 0 < (terminated password).length := by simp [terminated]
  have hlt : i % ((n + 1) * (terminated password).length) <
      (n + 1) * (terminated password).length := Nat.mod_lt _ (Nat.mul_pos n.succ_pos hpos)
  unfold cycled
  rw [hlength, List.getD_eq_getElem?_getD, List.getD_eq_getElem?_getD, terminated_repeated,
    getElem?_flatten_replicate _ _ _ hlt, Nat.mod_mul_left_mod]

omit [Packages] in
theorem repeated_injective (password : String) : Function.Injective (repeated password) := by
  have hmono : StrictMono fun n => (repeated password n).length := by
    refine strictMono_nat_of_lt_succ fun n => ?_
    have hzero : "\x00".length = 1 := rfl
    simp only [repeated, String.length_append, hzero]
    omega
  intro n m h
  exact hmono.injective (congrArg String.length h)

/-- The package reads a user and a password from a header, and any other password can be sent too. -/
def SendsAny : Prop :=
  ∀ header user password, basicAuth header = some (user, password) → ∀ password',
    ∃ header', basicAuth header' = some (user, password') ∧
      ∀ r : Request, r.header "Authorization" = header' → (credentials r "Basic").isSome

/-- Whoever can present a password that is accepted can present as many as they like. -/
theorem exists_presented {users : List (String × String)} (hread : ReadsCycled) (hsend : SendsAny)
    {r : Request} {c : Presented} (hc : presented users r = some c) (hmatches : c.matches = true)
    (n : Nat) :
    ∃ r', presented users r' = some { c with password := repeated c.password n } ∧
      ({ c with password := repeated c.password n } : Presented).matches = true := by
  obtain ⟨-, hauth, hhash⟩ := presented_eq_some.mp hc
  obtain ⟨header, hheader, hcredentials⟩ :=
    hsend _ c.user c.password hauth (repeated c.password n)
  refine ⟨{ r with header := fun _ => header }, presented_eq_some.mpr ⟨?_, hheader, hhash⟩, ?_⟩
  · exact hcredentials _ rfl
  · unfold Presented.matches at hmatches ⊢
    rw [← hmatches]
    exact hread c.hash _ _ fun i _ => cycled_repeated c.password n i

/-- The memory stays within the number of the users exactly when nobody can be let in. -/
theorem length_verified_le_iff (hsha : Function.Injective sha256Hex) (hread : ReadsCycled)
    (hsend : SendsAny) (cfg : BasicConfig) :
    (∀ rs, (final BasicProvider.authenticate (newBasicProvider cfg) rs).verified.length ≤
      cfg.users.length) ↔
      ∀ r c, presented cfg.users r = some c → c.matches = false := by
  constructor
  · intro hbound r c hc
    by_contra hmatches
    rw [Bool.not_eq_false] at hmatches
    choose request hrequest haccepted using exists_presented hread hsend hc hmatches
    have hnodup : ((List.range (cfg.users.length + 1)).map request |>.map
        (requestKey cfg.users)).Nodup := by
      rw [List.map_map]
      refine List.Nodup.map ?_ List.nodup_range
      intro n m hnm
      simp only [Function.comp_apply, requestKey, hrequest, Option.map_some, Option.some.injEq,
        Presented.key, verifiedKey, String.append_right_inj] at hnm
      exact repeated_injective c.password (hsha hnm)
    have hpass : ∀ r ∈ (List.range (cfg.users.length + 1)).map request,
        ∃ k, Lib.Passes (requestKey cfg.users) (requestMatches cfg.users) r k := by
      intro r' hr'
      obtain ⟨n, -, rfl⟩ := List.mem_map.mp hr'
      exact ⟨_, requestKey_eq_some.mpr ⟨_, hrequest n, rfl⟩,
        (requestMatches_of_presented (hrequest n)).trans (haccepted n)⟩
    have hgrown := le_length_final_memo hnodup hpass []
    have hle := hbound ((List.range (cfg.users.length + 1)).map request)
    rw [final_authenticate] at hle
    rw [List.length_map, List.length_range] at hgrown
    exact absurd (hgrown.trans hle) (by omega)
  · intro hnobody rs
    have hempty : (final BasicProvider.authenticate (newBasicProvider cfg) rs).verified = [] := by
      rw [List.eq_nil_iff_forall_not_mem]
      intro key hkey
      obtain ⟨r, -, c, hc, hmatches, -⟩ := (mem_verified_iff cfg rs key).mp hkey
      rw [hnobody r c hc] at hmatches
      cases hmatches
    rw [hempty]
    exact Nat.zero_le _

end

/-! ## Two users, two passwords -/

/-- A code of a password in the characters `0`, `1` and `2`. -/
def unaryCode (password : String) : String :=
  String.ofList (password.toList.flatMap (fun c => List.replicate c.toNat '0' ++ ['1']) ++ ['2'])

/-- Digests that differ, those of the two passwords below being as they are. -/
def digest (password : String) : String :=
  if password = "fakepassword" then
    "e6808a56aad66cf89b43388ef3d0f021206594399dcd6c1b70d8382a1dae402b"
  else if password = "fakepassword\x00fakepassword" then
    "9898e171d7a6e943dd4d024712f3951703b5f38062e1d934ad9a3f2e9bc1bcd7"
  else unaryCode password

theorem isCode_unary : IsCode (fun c : Char => List.replicate c.toNat '0' ++ ['1']) '2' where
  inj := by
    intro c c' r r' h
    rw [List.append_assoc, List.append_assoc] at h
    have hzeros : ∀ n, ∀ x ∈ List.replicate n '0', (x == '0') = true := by
      intro n x hx
      rw [List.eq_of_mem_replicate hx]
      rfl
    have hone : ∀ s : List Char, ∀ x ∈ (['1'] ++ s).head?, (x == '0') = false := by
      intro s x hx
      cases hx
      rfl
    obtain ⟨hreplicate, hrest⟩ := append_inj_of_stop (hzeros _) (hzeros _) (hone r) (hone r') h
    have hlength := congrArg List.length hreplicate
    rw [List.length_replicate, List.length_replicate] at hlength
    exact ⟨Char.toNat_inj.mp hlength, (List.cons.inj hrest).2⟩
  ne_stop := by
    intro c r r' h
    cases hn : c.toNat with
    | zero => simp [hn] at h
    | succ n => simp [hn, List.replicate_succ] at h

theorem unaryCode_injective : Function.Injective unaryCode := by
  intro password password' h
  exact String.toList_inj.mp (isCode_unary.flatMap_inj (String.ofList_inj.mp h)).1

theorem mem_unaryCode {password : String} {c : Char} (h : c ∈ (unaryCode password).toList) :
    c = '0' ∨ c = '1' ∨ c = '2' := by
  rw [unaryCode, String.toList_ofList, List.mem_append, List.mem_flatMap] at h
  rcases h with ⟨x, -, hx⟩ | hc
  · rcases List.mem_append.mp hx with hzero | hone
    · exact .inl (List.eq_of_mem_replicate hzero)
    · exact .inr (.inl (List.mem_singleton.mp hone))
  · exact .inr (.inr (List.mem_singleton.mp hc))

theorem digest_injective : Function.Injective digest := by
  have hcode : ∀ password s, 'd' ∈ s.toList → s ≠ unaryCode password := by
    rintro password s hs rfl
    rcases mem_unaryCode hs with hd | hd | hd
    · cases hd
    · cases hd
    · cases hd
  have hfirst := fun password => hcode password
    "e6808a56aad66cf89b43388ef3d0f021206594399dcd6c1b70d8382a1dae402b" (by decide)
  have hsecond := fun password => hcode password
    "9898e171d7a6e943dd4d024712f3951703b5f38062e1d934ad9a3f2e9bc1bcd7" (by decide)
  intro password password' h
  unfold digest at h
  split_ifs at h with h1 h1' h2' h2 h1' h2' h1' h2'
  · rw [h1, h1']
  · exact absurd h (by decide)
  · exact absurd h (hfirst _)
  · exact absurd h (by decide)
  · rw [h2, h2']
  · exact absurd h (hsecond _)
  · exact absurd h.symm (hfirst _)
  · exact absurd h.symm (hsecond _)
  · exact unaryCode_injective h

theorem zero_notMem_digest (password : String) : '\x00' ∉ (digest password).toList := by
  unfold digest
  split_ifs
  · decide
  · decide
  · intro h
    rcases mem_unaryCode h with hd | hd | hd
    · cases hd
    · cases hd
    · cases hd

def fakeHash : String := "$2y$10$QOauhQNbBCuQDKes6eFzPeMqBSjb7Mr5DUmpZ/VcEd00UAV/LDeSi"

/-- A hash of another password. -/
def otherHash : String := "$2y$10$QOauhQNbBCuQDKes6eFzPeMqBSjb7Mr5DUmpZ/VcEd00UAV/LDeSa"

def aliceHeader : String := "Basic YWxpY2U6ZmFrZXBhc3N3b3Jk"

def aliceTwiceHeader : String := "Basic YWxpY2U6ZmFrZXBhc3N3b3JkAGZha2VwYXNzd29yZA=="

def otherUserHeader : String :=
  "Basic YWxpY2UAJDJ5JDEwJFFPYXVoUU5iQkN1UURLZXM2ZUZ6UGVNcUJTamI3TXI1RFVtcFovVmNF" ++
    "ZDAwVUFWL0xEZVNhOmZha2VwYXNzd29yZA=="

/-- Packages that know one password and its hash. What is behind the end of a hash is not compared. -/
abbrev oneHash : Packages where
  quote s := "\"" ++ s ++ "\""
  Addr := Empty
  Prefix := Empty
  splitHostPort _ := none
  parseAddr _ := none
  unmap addr := addr
  parsePrefix _ := .error "no prefix"
  masked cidr := cidr
  contains _ _ := false
  basicAuth header :=
    if header = aliceHeader then some ("alice", "fakepassword")
    else if header = aliceTwiceHeader then some ("alice", "fakepassword\x00fakepassword")
    else if header = otherUserHeader then some ("alice\x00" ++ otherHash, "fakepassword")
    else none
  bcryptCost hash :=
    if "$2y$10$".toList.isPrefixOf hash.toList && 59 ≤ hash.length then .ok 10
    else .error "not a hash"
  compareHashAndPassword hash password :=
    hash.toList.take 60 = fakeHash.toList &&
      (List.range 72).map (cycled password) = (List.range 72).map (cycled "fakepassword")
  sha256Hex := digest
  Context := Unit
  Verifier := Empty
  newVerifier _ _ _ := .error "no issuer"
  verify _ _ _ := .error "no key"

attribute [local instance] oneHash

def basicRequest (header : String) : Request where
  method := "GET"
  path := "/api/v1/query"
  header name := if name = "Authorization" then header else ""
  remoteAddr := "192.0.2.1:4711"
  context := ()

def oneUser : BasicConfig := ⟨[("alice", fakeHash)]⟩

/-- The hash of the first user goes on behind its end, with that of the second. -/
def confusedUsers : BasicConfig :=
  ⟨[("alice", otherHash ++ "\x00" ++ fakeHash), ("alice\x00" ++ otherHash, fakeHash)]⟩

theorem hash_of_oneUser {r : Request} {c : Presented} (h : presented oneUser.users r = some c) :
    c.user = "alice" ∧ c.hash = fakeHash := by
  have hlookup := (presented_eq_some.mp h).2.2
  unfold oneUser at hlookup
  rw [List.lookup_cons] at hlookup
  split at hlookup
  · rename_i huser
    exact ⟨eq_of_beq huser, (Option.some.inj hlookup).symm⟩
  · cases hlookup

/-- A single user is not taken for another. -/
theorem authenticate_cached_oneUser :
    outputs BasicProvider.authenticate (newBasicProvider oneUser)
      [basicRequest aliceHeader, basicRequest aliceTwiceHeader, basicRequest aliceHeader] =
    [basicRequest aliceHeader, basicRequest aliceTwiceHeader, basicRequest aliceHeader].map
      (compareEvery oneUser.users) := by
  refine ((authenticate_cached_iff digest_injective zero_notMem_digest oneUser).mpr ?_ _).1
  intro r r' c c' hc hc' _ hpassword
  unfold Presented.matches
  rw [(hash_of_oneUser hc).2, (hash_of_oneUser hc').2, hpassword]

/-- The password of the second user is accepted of the first one, once the second has used it. -/
theorem authenticate_cached_confused :
    Function.Injective Packages.sha256Hex ∧ confusedUsers.validate = .ok () ∧
      outputs BasicProvider.authenticate (newBasicProvider confusedUsers)
        [basicRequest otherUserHeader, basicRequest aliceHeader] ≠
      [basicRequest otherUserHeader, basicRequest aliceHeader].map
        (compareEvery confusedUsers.users) :=
  ⟨digest_injective, by decide +kernel, by decide +kernel⟩

theorem length_verified_le_alice :
    (final BasicProvider.authenticate (newBasicProvider oneUser)
      [basicRequest aliceHeader, basicRequest aliceHeader]).verified.length ≤ 1 := by
  have hpresented : presented oneUser.users (basicRequest aliceHeader) =
      some ⟨"alice", fakeHash, "fakepassword"⟩ := presented_eq_some.mpr (by decide +kernel)
  have hprefix : [basicRequest aliceHeader, basicRequest aliceHeader] <+:
      [basicRequest aliceHeader, basicRequest aliceHeader] := List.prefix_refl _
  refine length_verified_le oneUser ?_ hprefix
  refine ⟨?_, ?_, trivial⟩
  · intro c _ _ password hverified
    cases hverified
  · intro c hc _ password hverified
    obtain ⟨r, hr, c', hc', -, hkey⟩ :=
      (mem_verified_iff oneUser [basicRequest aliceHeader] _).mp hverified
    have hfirst : presented oneUser.users (basicRequest aliceHeader) = some c := hc
    rw [List.mem_singleton.mp hr, hpresented] at hc'
    rw [hpresented] at hfirst
    cases hfirst
    cases hc'
    exact (verifiedKey_inj digest_injective zero_notMem_digest hkey).2.symm

/-- The password and the same again behind a zero are read alike, and both are remembered. -/
theorem length_verified_twice :
    ReadsCycled ∧ oneUser.validate = .ok () ∧ oneUser.users.length <
      (final BasicProvider.authenticate (newBasicProvider oneUser)
        [basicRequest aliceHeader, basicRequest aliceTwiceHeader]).verified.length := by
  refine ⟨?_, by decide +kernel, by decide +kernel⟩
  intro hash password password' h
  have hread : (List.range 72).map (cycled password) = (List.range 72).map (cycled password') :=
    List.map_congr_left fun i hi => h i (List.mem_range.mp hi)
  simp only [Packages.compareHashAndPassword, hread]

end Auth
end Proxeus
