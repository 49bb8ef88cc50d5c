import CollabIDE.Auth.Password
import CollabIDE.Execution.Wire
import CollabIDE.Files.Paths
import CollabIDE.Lib.Machine
/-!
# Accounts

The `register` and `login` routes, await by await.  Registrations of one email
at the same time all pass the check, and the unique index lets one of them
through.  An account is there for every later login with its password, and for
no login with another key; one whose registration failed behind the write is
there too.
-/

namespace CollabIDE.Auth.Accounts

open CollabIDE.Auth.Password CollabIDE.Execution.Wire CollabIDE.Files.Paths
open CollabIDE.Http.Errors CollabIDE.Lib.Machine

/-! ## The `User` table -/

structure User where
  id : String
  email : String
  passwordHash : List Char
  displayName : String
  createdAt : Nat
  deriving DecidableEq

/-- The rows under the primary key and the unique index on the email. -/
structure Table where
  rows : List User
  ids : (rows.map User.id).Nodup
  emails : (rows.map User.email).Nodup

def Table.empty : Table := ⟨[], List.nodup_nil, List.nodup_nil⟩

/-- `user.findUnique` by email. -/
def findUnique (t : Table) (email : String) : Option User :=
  t.rows.find? fun row => row.email = email

/-- `user.create`, which fails with P2002 on either index. -/
def create (t : Table) (user : User) : Option Table :=
  if h : user.id ∉ t.rows.map User.id ∧ user.email ∉ t.rows.map User.email then
    some
      { rows := t.rows ++ [user]
        ids := by
          rw [List.map_append]
          exact t.ids.append (List.nodup_singleton _) (by simpa using h.1)
        emails := by
          rw [List.map_append]
          exact t.emails.append (List.nodup_singleton _) (by simpa using h.2) }
  else none

/-! ## The requests -/

structure PublicUser where
  id : String
  email : String
  displayName : String
  createdAt : Nat
  deriving DecidableEq

/-- The only shape a user is ever serialized in. -/
def toPublicUser (user : User) : PublicUser :=
  ⟨user.id, user.email, user.displayName, user.createdAt⟩

structure RegisterInput where
  email : String
  password : String
  displayName : String
  deriving DecidableEq

structure LoginInput where
  email : String
  password : String
  deriving DecidableEq

/-- `EMAIL_PATTERN`: one `@`, and a dot behind it that has something on both sides. -/
def isEmail (value : String) : Bool :=
  match value.toList.splitOn '@' with
  | [name, domain] =>
    name ≠ [] && (name ++ domain).all (fun c => !isTrimmed c) && domain.tail.dropLast.contains '.'
  | _ => false

variable (toLowerCase : String → String)

/-- `emailSchema`: normalized before it reaches the database. -/
def emailSchema (value : String) : Option String :=
  let normal := toLowerCase (trim value)
  if 3 ≤ utf16Length value ∧ utf16Length value ≤ 254 ∧ isEmail normal = true then some normal
  else none

def passwordSchema (value : String) : Option String :=
  if 10 ≤ utf16Length value ∧ utf16Length value ≤ 256 then some value else none

def displayNameSchema (value : String) : Option String :=
  let trimmed := trim value
  if 1 ≤ utf16Length trimmed ∧ utf16Length trimmed ≤ 80 then some trimmed else none

def registerSchema (email password displayName : String) : Option RegisterInput := do
  let email ← emailSchema toLowerCase email
  let password ← passwordSchema password
  let displayName ← displayNameSchema displayName
  some ⟨email, password, displayName⟩

/-- Length rules of passwords belong on the way in. -/
def loginSchema (email password : String) : Option LoginInput := do
  let email ← emailSchema toLowerCase email
  if 1 ≤ utf16Length password then some ⟨email, password⟩ else none

/-! ## The routes -/

def EMAIL_TAKEN : AppError := ⟨409, "EMAIL_TAKEN", "That email is already registered"⟩

/-- Identical for an unknown email and a wrong password. -/
def invalidCredentials : AppError :=
  ⟨401, "INVALID_CREDENTIALS", "Email or password is incorrect"⟩

inductive Response
  | created (user : PublicUser)
  | ok (user : PublicUser)
  | error (e : AppError)
  /-- 500: something the handler waited for was rejected. -/
  | failed
  deriving DecidableEq

inductive Request
  | register (input : RegisterInput)
  | login (input : LoginInput)
  | invalid
  deriving DecidableEq

/-- The await a handler is suspended at, or its answer. -/
inductive Stage
  /-- `findUnique`. -/
  | finding
  | hashing
  | creating (passwordHash : List Char)
  /-- `burnVerificationTime`. -/
  | burning
  | verifying (user : User)
  /-- `signToken`. -/
  | signing (user : PublicUser)
  | answered (response : Response)
  deriving DecidableEq

/-- `wrote` is the account the call has written, whatever its answer. -/
structure Call where
  request : Request
  stage : Stage
  wrote : Option PublicUser
  deriving DecidableEq

structure State where
  users : Table
  calls : List Call

def start : State := ⟨.empty, []⟩

inductive Event
  | register (email password displayName : String)
  | login (email password : String)
  | finds (call : Nat)
  | hashes (call : Nat) (salt : List UInt8)
  /-- The handler may not learn that the row is there. -/
  | creates (call : Nat) (id : String) (createdAt : Nat) (replies : Bool)
  | burns (call : Nat)
  | verifies (call : Nat)
  | signs (call : Nat)
  | fails (call : Nat)

/-- A handler up to its first await. -/
def begin (request : Request) : Call :=
  ⟨request, if request = .invalid then .answered (.error VALIDATION_ERROR) else .finding, none⟩

def found (users : Table) : Request → Stage
  | .register input =>
    if (findUnique users input.email).isSome then .answered (.error EMAIL_TAKEN) else .hashing
  | .login input =>
    match findUnique users input.email with
    | some user => .verifying user
    | none => .burning
  | .invalid => .answered (.error VALIDATION_ERROR)

variable (C : Crypto)

def verified (password : String) (user : User) : Stage :=
  match verifyPassword C password user.passwordHash with
  | .ok true => .signing (toPublicUser user)
  | .ok false => .answered (.error invalidCredentials)
  | .error _ => .answered .failed

def signed (user : PublicUser) : Request → Response
  | .register _ => .created user
  | .login _ | .invalid => .ok user

def password : Request → String
  | .register input => input.password
  | .login input => input.password
  | .invalid => ""

/-- How a suspended call goes on, and the table with it. -/
def resume (users : Table) (call : Call) : Event → Option (Table × Call)
  | .finds _ =>
    if call.stage = .finding then some (users, { call with stage := found users call.request })
    else none
  | .hashes _ salt =>
    if call.stage = .hashing ∧ salt.length = SALT_BYTES then
      match hashPassword C salt (password call.request) with
      | .ok text => some (users, { call with stage := .creating text })
      | .error _ => some (users, { call with stage := .answered .failed })
    else none
  | .creates _ id createdAt replies =>
    match call.request, call.stage with
    | .register input, .creating text =>
      let user := ⟨id, input.email, text, input.displayName, createdAt⟩
      match create users user with
      | some users =>
        some (users, { call with
          stage := if replies then .signing (toPublicUser user) else .answered .failed
          wrote := some (toPublicUser user) })
      | none => some (users, { call with stage := .answered (.error (errorHandler .P2002)) })
    | _, _ => none
  | .burns _ =>
    if call.stage = .burning then
      some (users, { call with stage := .answered (.error invalidCredentials) })
    else none
  | .verifies _ =>
    match call.stage with
    | .verifying user =>
      some (users, { call with stage := verified C (password call.request) user })
    | _ => none
  | .signs _ =>
    match call.stage with
    | .signing user => some (users, { call with stage := .answered (signed user call.request) })
    | _ => none
  | .fails _ =>
    match call.stage with
    | .answered _ => none
    | _ => some (users, { call with stage := .answered .failed })
  | .register .. | .login .. => none

def Event.call : Event → Option Nat
  | .finds i | .hashes i _ | .creates i _ _ _ | .burns i | .verifies i | .signs i | .fails i =>
    some i
  | .register .. | .login .. => none

def Event.request : Event → Request
  | .register email password displayName =>
    ((registerSchema toLowerCase email password displayName).map .register).getD .invalid
  | .login email password => ((loginSchema toLowerCase email password).map .login).getD .invalid
  | _ => .invalid

def step (s : State) (e : Event) : Option State :=
  match e.call with
  | none => some { s with calls := s.calls ++ [begin (e.request toLowerCase)] }
  | some i =>
    s.calls[i]?.bind fun call => (resume C s.users call e).map fun r =>
      ⟨r.1, s.calls.set i r.2⟩

/-! ## The table -/

section Table

variable {users users' : Table} {email : String} {user : User}

theorem eq_of_email {a b : User} (ha : a ∈ users.rows) (hb : b ∈ users.rows)
    (h : a.email = b.email) : a = b := List.inj_on_of_nodup_map users.emails ha hb h

theorem findUnique_eq_some :
    findUnique users email = some user ↔ user ∈ users.rows ∧ user.email = email := by
  constructor
  · intro h
    exact ⟨List.mem_of_find?_eq_some h, by simpa using List.find?_some h⟩
  · rintro ⟨hmem, rfl⟩
    obtain ⟨other, hother⟩ : ∃ other, findUnique users user.email = some other := by
      refine Option.isSome_iff_exists.mp (List.find?_isSome.mpr ⟨user, hmem, ?_⟩)
      exact decide_eq_true rfl
    have hfound : other ∈ users.rows ∧ other.email = user.email :=
      ⟨List.mem_of_find?_eq_some hother, by simpa using List.find?_some hother⟩
    rw [hother, eq_of_email hfound.1 hmem hfound.2]

theorem rows_create (h : create users user = some users') :
    users'.rows = users.rows ++ [user] := by
  unfold create at h
  split at h
  · obtain rfl := Option.some.inj h
    rfl
  · cases h

end Table

/-! ## What is known of a call -/

variable {toLowerCase : String → String} {C : Crypto} {s t : State} {users users' : Table}
  {call call' : Call} {e : Event}

/-- A text some password is stored as. -/
def Hashes (C : Crypto) (password : String) (text : List Char) : Prop :=
  ∃ salt, salt ≠ [] ∧ hashPassword C salt password = .ok text

/-- The account a request is answered with: its own email, and the hash of its password, or one its
password verifies with. -/
def Owns (C : Crypto) (users : Table) (u : PublicUser) : Request → Prop
  | .register input => ∃ row ∈ users.rows, u = toPublicUser row ∧ row.email = input.email ∧
      Hashes C input.password row.passwordHash
  | .login input => ∃ row ∈ users.rows, u = toPublicUser row ∧ row.email = input.email ∧
      verifyPassword C input.password row.passwordHash = .ok true
  | .invalid => False

/-- What a call knows of the accounts. -/
def Fits (C : Crypto) (users : Table) (call : Call) : Prop :=
  match call.stage with
  | .creating text => Hashes C (password call.request) text
  | .verifying user => ∃ input, call.request = .login input ∧ user ∈ users.rows ∧
      user.email = input.email
  | .signing u | .answered (.created u) | .answered (.ok u) => Owns C users u call.request
  | _ => True

/-- A call that has written an account signs, is answered 201 with it, or has failed; no other
registration signs, and none is answered 201. -/
def Kept (call : Call) : Prop :=
  match call.wrote with
  | some u => (∃ input, call.request = .register input) ∧
      (call.stage = .signing u ∨ call.stage = .answered (.created u) ∨
        call.stage = .answered .failed)
  | none => (∀ u, call.stage ≠ .answered (.created u)) ∧
      ∀ input u, call.request = .register input → call.stage ≠ .signing u

theorem Owns.mono {u : PublicUser} {request : Request} (h : Owns C users u request)
    (hrows : users.rows ⊆ users'.rows) : Owns C users' u request := by
  cases request with
  | register input =>
      obtain ⟨row, hmem, hrow⟩ := h
      exact ⟨row, hrows hmem, hrow⟩
  | login input =>
      obtain ⟨row, hmem, hrow⟩ := h
      exact ⟨row, hrows hmem, hrow⟩
  | invalid => exact h

theorem Fits.mono (h : Fits C users call) (hrows : users.rows ⊆ users'.rows) :
    Fits C users' call := by
  obtain ⟨request, stage, wrote⟩ := call
  cases stage with
  | verifying user =>
      obtain ⟨input, hrequest, hmem, hemail⟩ := h
      exact ⟨input, hrequest, hrows hmem, hemail⟩
  | signing u => exact Owns.mono h hrows
  | answered response =>
      cases response with
      | created u => exact Owns.mono h hrows
      | ok u => exact Owns.mono h hrows
      | error e => trivial
      | failed => trivial
  | creating text => exact h
  | finding | hashing | burning => trivial

theorem fits_begin (request : Request) : Fits C users (begin request) := by
  unfold begin
  split <;> trivial

theorem kept_begin (request : Request) : Kept (begin request) := by
  rw [begin, Kept]
  refine ⟨fun u heq => ?_, fun input u _ heq => ?_⟩ <;> split at heq <;> cases heq

theorem found_cases (users : Table) (request : Request) :
    (∃ user input, request = .login input ∧ user ∈ users.rows ∧ user.email = input.email ∧
      found users request = .verifying user) ∨
    found users request = .hashing ∨ found users request = .burning ∨
      ∃ error, found users request = .answered (.error error) := by
  cases request with
  | register input =>
      rw [found]
      split
      · exact .inr (.inr (.inr ⟨_, rfl⟩))
      · exact .inr (.inl rfl)
  | login input =>
      rw [found]
      split
      · next user huser =>
          obtain ⟨hmem, hemail⟩ := findUnique_eq_some.mp huser
          exact .inl ⟨user, input, rfl, hmem, hemail, rfl⟩
      · exact .inr (.inr (.inl rfl))
  | invalid => exact .inr (.inr (.inr ⟨_, rfl⟩))

/-- It has not come to sign. -/
def Stage.early : Stage → Bool
  | .signing _ | .answered _ => false
  | _ => true

/-- How a call goes on. -/
inductive Resumed (C : Crypto) (users : Table) (call : Call) : Table → Call → Prop
  | finds (h : call.stage = .finding) :
    Resumed C users call users { call with stage := found users call.request }
  | hashes {salt : List UInt8} {text : List Char} (h : call.stage = .hashing)
    (hsalt : salt.length = SALT_BYTES)
    (htext : hashPassword C salt (password call.request) = .ok text) :
    Resumed C users call users { call with stage := .creating text }
  | creates {input : RegisterInput} {user : User} {written : Table} (replies : Bool)
    (hrequest : call.request = .register input) (hemail : user.email = input.email)
    (h : call.stage = .creating user.passwordHash) (hcreate : create users user = some written) :
    Resumed C users call written { call with
      stage := if replies then .signing (toPublicUser user) else .answered .failed
      wrote := some (toPublicUser user) }
  | verifies {user : User} (h : call.stage = .verifying user) :
    Resumed C users call users { call with stage := verified C (password call.request) user }
  | signs {u : PublicUser} (h : call.stage = .signing u) :
    Resumed C users call users { call with stage := .answered (signed u call.request) }
  | refuses {e : AppError} (h : call.stage.early = true) :
    Resumed C users call users { call with stage := .answered (.error e) }
  | fails : Resumed C users call users { call with stage := .answered .failed }

theorem resumed_of_resume (h : resume C users call e = some (users', call')) :
    Resumed C users call users' call' := by
  cases e with
  | finds i =>
      rw [resume, Option.ite_none_right_eq_some] at h
      obtain ⟨rfl, rfl⟩ := Prod.mk.inj (Option.some.inj h.2)
      exact .finds h.1
  | hashes i salt =>
      rw [resume, Option.ite_none_right_eq_some] at h
      obtain ⟨⟨hstage, hsalt⟩, h⟩ := h
      split at h
      · next htext =>
          obtain ⟨rfl, rfl⟩ := Prod.mk.inj (Option.some.inj h)
          exact .hashes hstage hsalt htext
      · obtain ⟨rfl, rfl⟩ := Prod.mk.inj (Option.some.inj h)
        exact .fails
  | creates i id createdAt replies =>
      rw [resume] at h
      split at h
      · next hrequest hstage =>
          dsimp only at h
          split at h
          · next hcreate =>
              obtain ⟨rfl, rfl⟩ := Prod.mk.inj (Option.some.inj h)
              exact .creates replies hrequest rfl hstage hcreate
          · obtain ⟨rfl, rfl⟩ := Prod.mk.inj (Option.some.inj h)
            exact .refuses (hstage ▸ rfl)
      · cases h
  | burns i =>
      rw [resume, Option.ite_none_right_eq_some] at h
      obtain ⟨rfl, rfl⟩ := Prod.mk.inj (Option.some.inj h.2)
      exact .refuses (h.1 ▸ rfl)
  | verifies i =>
      rw [resume] at h
      split at h
      · next hstage =>
          obtain ⟨rfl, rfl⟩ := Prod.mk.inj (Option.some.inj h)
          exact .verifies hstage
      · cases h
  | signs i =>
      rw [resume] at h
      split at h
      · next hstage =>
          obtain ⟨rfl, rfl⟩ := Prod.mk.inj (Option.some.inj h)
          exact .signs hstage
      · cases h
  | fails i =>
      rw [resume] at h
      split at h
      · cases h
      · obtain ⟨rfl, rfl⟩ := Prod.mk.inj (Option.some.inj h)
        exact .fails
  | register _ _ _ | login _ _ => cases h

/-- Before it signs, a call has written nothing. -/
theorem Kept.wrote_eq_none (hkept : Kept call) (hearly : call.stage.early = true) :
    call.wrote = none := by
  obtain ⟨request, stage, wrote⟩ := call
  cases wrote with
  | none => rfl
  | some u =>
      rcases hkept.2 with rfl | rfl | rfl
      · cases hearly
      · cases hearly
      · cases hearly

theorem kept_of_wrote_none (hwrote : call.wrote = none)
    (hcreated : ∀ u, call.stage ≠ .answered (.created u))
    (hsigning : ∀ u, call.stage ≠ .signing u) : Kept call := by
  rw [Kept, hwrote]
  exact ⟨hcreated, fun _ u _ => hsigning u⟩

theorem Resumed.fits (h : Resumed C users call users' call') (hfits : Fits C users call) :
    Fits C users' call' := by
  obtain ⟨request, stage, wrote⟩ := call
  cases h with
  | finds _ =>
      unfold Fits
      rcases found_cases users request with ⟨user, input, rfl, hmem, hemail, heq⟩ | heq | heq |
        ⟨error, heq⟩ <;> simp only [heq]
      exact ⟨input, rfl, hmem, hemail⟩
  | @hashes salt text _ hsalt htext =>
      refine ⟨salt, ?_, htext⟩
      rintro rfl
      exact absurd hsalt (by decide)
  | creates replies hrequest hemail hstage hcreate =>
      obtain rfl : request = _ := hrequest
      obtain rfl : stage = _ := hstage
      cases replies with
      | false => trivial
      | true =>
          refine ⟨_, ?_, rfl, hemail, hfits⟩
          rw [rows_create hcreate]
          exact List.mem_append_right _ (List.mem_singleton_self _)
  | @verifies user hstage =>
      obtain rfl : stage = _ := hstage
      obtain ⟨input, rfl, hmem, hemail⟩ := hfits
      rw [password, verified]
      cases hverify : verifyPassword C input.password user.passwordHash with
      | error _ => trivial
      | ok verifies =>
          cases verifies with
          | false => trivial
          | true => exact ⟨user, hmem, rfl, hemail, hverify⟩
  | signs hstage =>
      obtain rfl : stage = _ := hstage
      cases request with
      | register input => exact hfits
      | login input => exact hfits
      | invalid => exact hfits
  | refuses _ | fails => trivial

theorem Resumed.kept (h : Resumed C users call users' call') (hfits : Fits C users call)
    (hkept : Kept call) : Kept call' := by
  obtain ⟨request, stage, wrote⟩ := call
  cases h with
  | finds hstage =>
      obtain rfl : stage = _ := hstage
      refine kept_of_wrote_none (hkept.wrote_eq_none rfl) ?_ ?_ <;>
        rcases found_cases users request with ⟨_, _, _, _, _, heq⟩ | heq | heq | ⟨_, heq⟩ <;>
        simp [heq]
  | hashes hstage =>
      obtain rfl : stage = _ := hstage
      exact kept_of_wrote_none (hkept.wrote_eq_none rfl) (by simp) (by simp)
  | @creates input _ _ replies hrequest hemail hstage hcreate =>
      obtain rfl : request = _ := hrequest
      cases replies with
      | false => exact ⟨⟨input, rfl⟩, .inr (.inr rfl)⟩
      | true => exact ⟨⟨input, rfl⟩, .inl rfl⟩
  | @verifies user hstage =>
      obtain rfl : stage = _ := hstage
      obtain rfl : wrote = none := hkept.wrote_eq_none rfl
      obtain ⟨input, rfl, -⟩ := hfits
      rw [password, verified]
      cases verifyPassword C input.password user.passwordHash with
      | error _ => exact ⟨nofun, nofun⟩
      | ok verifies => cases verifies <;> exact ⟨nofun, nofun⟩
  | @signs user hstage =>
      obtain rfl : stage = _ := hstage
      cases wrote with
      | some u =>
          obtain ⟨⟨input, rfl⟩, heq | heq | heq⟩ := hkept
          · obtain rfl := Stage.signing.inj heq
            exact ⟨⟨input, rfl⟩, .inr (.inl rfl)⟩
          · cases heq
          · cases heq
      | none =>
          cases request with
          | register input => exact absurd rfl (hkept.2 input user rfl)
          | login input => exact kept_of_wrote_none rfl (by simp [signed]) (by simp)
          | invalid => exact kept_of_wrote_none rfl (by simp [signed]) (by simp)
  | refuses hearly => exact kept_of_wrote_none (hkept.wrote_eq_none hearly) (by simp) (by simp)
  | fails =>
      cases wrote with
      | some u => exact ⟨hkept.1, .inr (.inr rfl)⟩
      | none => exact kept_of_wrote_none rfl (by simp) (by simp)

/-- A call that goes on leaves the table alone, or writes one account, for the first time. -/
theorem Resumed.rows (h : Resumed C users call users' call') (hkept : Kept call) :
    users' = users ∧ call'.wrote = call.wrote ∨
      ∃ row, users'.rows = users.rows ++ [row] ∧ call.wrote = none ∧
        call'.wrote = some (toPublicUser row) := by
  cases h with
  | creates replies hrequest hemail hstage hcreate =>
      exact .inr ⟨_, rows_create hcreate, hkept.wrote_eq_none (hstage ▸ rfl), rfl⟩
  | finds | hashes | verifies | signs | refuses | fails => exact .inl ⟨rfl, rfl⟩

/-! ## Every run -/

theorem filterMap_set {α β : Type} {f : α → Option β} {l : List α} {i : Nat} {a b : α}
    (hi : l[i]? = some a) :
    (f b = f a → (l.set i b).filterMap f = l.filterMap f) ∧
      (f a = none → ((l.set i b).filterMap f).Perm (l.filterMap f ++ (f b).toList)) := by
  induction l generalizing i with
  | nil => cases hi
  | cons c l ih =>
      cases i with
      | zero =>
          obtain rfl : c = a := Option.some.inj hi
          rw [List.set_cons_zero]
          refine ⟨fun heq => by simp only [List.filterMap_cons, heq], fun ha => ?_⟩
          rw [List.filterMap_cons_none ha]
          cases hb : f b with
          | none => rw [List.filterMap_cons_none hb, Option.toList_none, List.append_nil]
          | some d =>
              rw [List.filterMap_cons_some hb, Option.toList_some]
              exact (List.perm_append_singleton d _).symm
      | succ i =>
          obtain ⟨hsame, hnew⟩ := ih (i := i) (by simpa using hi)
          rw [List.set_cons_succ]
          refine ⟨fun heq => by simp only [List.filterMap_cons, hsame heq], fun ha => ?_⟩
          cases hc : f c with
          | none =>
              rw [List.filterMap_cons_none hc, List.filterMap_cons_none hc]
              exact hnew ha
          | some d =>
              rw [List.filterMap_cons_some hc, List.filterMap_cons_some hc, List.cons_append]
              exact (hnew ha).cons d

structure Inv (C : Crypto) (s : State) : Prop where
  fits : ∀ call ∈ s.calls, Fits C s.users call
  kept : ∀ call ∈ s.calls, Kept call
  accounts : (s.calls.filterMap Call.wrote).Perm (s.users.rows.map toPublicUser)

theorem inv_start : Inv C start := ⟨nofun, nofun, List.Perm.refl _⟩

theorem step_cases (h : step toLowerCase C s e = some t) :
    (e.call = none ∧ t = { s with calls := s.calls ++ [begin (e.request toLowerCase)] }) ∨
      ∃ i call users call', e.call = some i ∧ s.calls[i]? = some call ∧
        resume C s.users call e = some (users, call') ∧ t = ⟨users, s.calls.set i call'⟩ := by
  unfold step at h
  split at h
  · next hcall => exact .inl ⟨hcall, (Option.some.inj h).symm⟩
  · next i hcall =>
      obtain ⟨call, hi, h⟩ := Option.bind_eq_some_iff.mp h
      obtain ⟨⟨users, call'⟩, hresume, rfl⟩ := Option.map_eq_some_iff.mp h
      exact .inr ⟨i, call, users, call', hcall, hi, hresume, rfl⟩

theorem inv_step (hinv : Inv C s) (h : step toLowerCase C s e = some t) :
    Inv C t ∧ s.users.rows ⊆ t.users.rows := by
  rcases step_cases h with ⟨-, rfl⟩ | ⟨i, call, users, call', -, hi, hresume, rfl⟩
  · refine ⟨⟨fun call hcall => ?_, fun call hcall => ?_, ?_⟩, List.Subset.refl _⟩
    · rcases List.mem_append.mp hcall with hold | hnew
      · exact hinv.fits call hold
      · obtain rfl := List.mem_singleton.mp hnew
        exact fits_begin _
    · rcases List.mem_append.mp hcall with hold | hnew
      · exact hinv.kept call hold
      · obtain rfl := List.mem_singleton.mp hnew
        exact kept_begin _
    · rw [List.filterMap_append, List.filterMap_cons_none rfl, List.filterMap_nil, List.append_nil]
      exact hinv.accounts
  · have hmem := List.mem_of_getElem? hi
    have hresumed := resumed_of_resume hresume
    have hnext := hresumed.fits (hinv.fits _ hmem)
    have hkept := hresumed.kept (hinv.fits _ hmem) (hinv.kept _ hmem)
    have hrows := hresumed.rows (hinv.kept _ hmem)
    obtain ⟨hsame, hnew⟩ := filterMap_set (f := Call.wrote) (b := call') hi
    have hgrown : s.users.rows ⊆ users.rows := by
      rcases hrows with ⟨rfl, -⟩ | ⟨row, hrow, -⟩
      · exact List.Subset.refl _
      · rw [hrow]
        exact List.subset_append_left _ _
    refine ⟨⟨fun other hother => ?_, fun other hother => ?_, ?_⟩, hgrown⟩
    · rcases List.mem_or_eq_of_mem_set hother with hold | rfl
      · exact (hinv.fits other hold).mono hgrown
      · exact hnext
    · rcases List.mem_or_eq_of_mem_set hother with hold | rfl
      · exact hinv.kept other hold
      · exact hkept
    · rcases hrows with ⟨rfl, hwrote⟩ | ⟨row, hrow, hnone, hwrote⟩
      · rw [hsame hwrote]
        exact hinv.accounts
      · rw [hrow, List.map_append, List.map_singleton]
        refine (hnew hnone).trans ?_
        rw [hwrote, Option.toList_some]
        exact hinv.accounts.append_right _

theorem inv_run {events : List Event} (h : run (step toLowerCase C) start events = some s) :
    Inv C s := run_invariant (fun _ _ _ hinv hstep => (inv_step hinv hstep).1) inv_start h

/-- The accounts are those that registrations have written, one each, and no two of them have one
email.  A registration that has written one signs, is answered 201 with it or has failed, and no
other one is answered 201.  Who is logged in has the email of an account and a password that
verifies with its hash. -/
theorem accounts_of_run {events : List Event}
    (h : run (step toLowerCase C) start events = some s) :
    (s.calls.filterMap Call.wrote).Perm (s.users.rows.map toPublicUser) ∧
    (s.users.rows.map User.email).Nodup ∧
    (∀ call ∈ s.calls, ∀ u, call.wrote = some u →
      (∃ input, call.request = .register input) ∧ (call.stage = .signing u ∨
        call.stage = .answered (.created u) ∨ call.stage = .answered .failed)) ∧
    (∀ call ∈ s.calls, ∀ u, call.stage = .answered (.created u) → call.wrote = some u) ∧
    ∀ call ∈ s.calls, ∀ input u, call.request = .login input → call.stage = .answered (.ok u) →
      ∃ row ∈ s.users.rows, u = toPublicUser row ∧ row.email = input.email ∧
        verifyPassword C input.password row.passwordHash = .ok true := by
  have hinv := inv_run h
  refine ⟨hinv.accounts, s.users.emails, fun call hcall u hwrote => ?_,
    fun call hcall u hstage => ?_, fun call hcall input u hrequest hstage => ?_⟩
  · have hkept := hinv.kept call hcall
    rw [Kept, hwrote] at hkept
    exact hkept
  · have hkept := hinv.kept call hcall
    cases hwrote : call.wrote with
    | none =>
        rw [Kept, hwrote] at hkept
        exact absurd hstage (hkept.1 u)
    | some v =>
        rw [Kept, hwrote] at hkept
        obtain ⟨-, heq | heq | heq⟩ := hkept
        · rw [hstage] at heq
          cases heq
        · rw [hstage] at heq
          cases heq
          rfl
        · rw [hstage] at heq
          cases heq
  · have hfits := hinv.fits call hcall
    rw [Fits, hstage, hrequest] at hfits
    exact hfits

/-- A function with keys of the right length, and decimal numerals. -/
def plainCrypto : Crypto where
  scrypt password salt keylen _ :=
    .ok (((password.toList.map fun c : Char => UInt8.ofNat c.toNat) ++ salt ++
      List.replicate keylen 0).take keylen)
  length_scrypt h := by
    obtain rfl := Except.ok.inj h
    rw [List.length_take, List.length_append, List.length_replicate]
    omega
  integer text := match Lib.Json.readNat text with
    | some (n, []) => some n
    | _ => none
  integer_toDigits n := by
    have hread := Lib.Json.readNat_toDigits n Lib.Json.ends_nil
    rw [List.append_nil] at hread
    rw [hread]

def ada : List Event :=
  [.register "ada@example.com" "correct horse" "Ada", .finds 0, .hashes 0 (List.replicate 16 7),
    .creates 0 "u1" 0 true, .signs 0]

def adaInput : RegisterInput := ⟨"ada@example.com", "correct horse", "Ada"⟩
def adaUser : PublicUser := ⟨"u1", "ada@example.com", "Ada", 0⟩

theorem ada_runs : ∃ s, run (step id plainCrypto) start ada = some s ∧
    s.calls = [⟨.register adaInput, .answered (.created adaUser), some adaUser⟩] := by
  have hcalls : (run (step id plainCrypto) start ada).map State.calls =
      some [⟨.register adaInput, .answered (.created adaUser), some adaUser⟩] := by decide +kernel
  exact Option.map_eq_some_iff.mp hcalls

/-- Two registrations of one email pass the check together, and the one that gets through cannot
sign. -/
def twice : List Event :=
  [.register "ada@example.com" "correct horse" "Ada",
    .register "ada@example.com" "battery pie" "Ada", .finds 0, .finds 1,
    .hashes 1 (List.replicate 16 9), .hashes 0 (List.replicate 16 7),
    .creates 0 "u1" 0 true, .creates 1 "u2" 0 true, .fails 0]

theorem accounts_of_run_twice : ∃ s, run (step id plainCrypto) start twice = some s ∧
    s.users.rows.map toPublicUser = [adaUser] ∧
    s.calls.map Call.stage = [.answered .failed, .answered (.error (errorHandler .P2002))] := by
  have hcalls : (run (step id plainCrypto) start twice).map (fun s =>
      (s.calls.map Call.stage, s.calls.filterMap Call.wrote)) =
      some ([.answered .failed, .answered (.error (errorHandler .P2002))], [adaUser]) := by
    decide +kernel
  obtain ⟨s, h, hs⟩ := Option.map_eq_some_iff.mp hcalls
  obtain ⟨hstages, hwrote⟩ := Prod.mk.inj hs
  have haccounts := (accounts_of_run h).1
  rw [hwrote] at haccounts
  exact ⟨s, h, List.perm_singleton.mp haccounts.symm, hstages⟩

/-! ## A login after the registration -/

/-- How far a login with the email of an account may have come. -/
def Tracks (C : Crypto) (password : String) (row : User) : Stage → Prop
  | .finding => True
  | .verifying user => user = row
  | .signing u => verified C password row = .signing u
  | .answered response => response = .failed ∨
      verified C password row = .answered response ∨
        ∃ u, verified C password row = .signing u ∧ response = .ok u
  | .hashing | .creating _ | .burning => False

theorem tracks_verified (C : Crypto) (password : String) (row : User) :
    Tracks C password row (verified C password row) := by
  cases h : verified C password row with
  | signing u => exact h
  | answered response => exact .inr (.inl h)
  | finding | hashing | creating _ | burning | verifying _ =>
      unfold verified at h
      split at h <;> cases h

theorem tracks_resume {input : LoginInput} {row : User} (hrequest : call.request = .login input)
    (hrow : row ∈ users.rows) (hemail : row.email = input.email)
    (htracks : Tracks C input.password row call.stage)
    (h : resume C users call e = some (users', call')) :
    call'.request = .login input ∧ Tracks C input.password row call'.stage := by
  obtain ⟨request, before, wrote⟩ := call
  obtain rfl := hrequest
  cases e with
  | finds i =>
      rw [resume, Option.ite_none_right_eq_some] at h
      obtain ⟨-, rfl⟩ := Prod.mk.inj (Option.some.inj h.2)
      have hfound : findUnique users input.email = some row :=
        findUnique_eq_some.mpr ⟨hrow, hemail⟩
      rw [found, hfound]
      exact ⟨rfl, rfl⟩
  | hashes i salt =>
      rw [resume, Option.ite_none_right_eq_some] at h
      obtain ⟨⟨rfl, -⟩, -⟩ := h
      exact htracks.elim
  | creates i id createdAt replies => cases h
  | burns i =>
      rw [resume, Option.ite_none_right_eq_some] at h
      obtain ⟨rfl, -⟩ := h
      exact htracks.elim
  | verifies i =>
      cases before with
      | verifying user =>
          obtain ⟨-, rfl⟩ := Prod.mk.inj (Option.some.inj h)
          obtain rfl := htracks
          exact ⟨rfl, tracks_verified C input.password user⟩
      | finding | hashing | burning | creating _ | signing _ | answered _ => cases h
  | signs i =>
      cases before with
      | signing u =>
          obtain ⟨-, rfl⟩ := Prod.mk.inj (Option.some.inj h)
          exact ⟨rfl, .inr (.inr ⟨u, htracks, rfl⟩)⟩
      | finding | hashing | burning | creating _ | verifying _ | answered _ => cases h
  | fails i =>
      rw [resume] at h
      split at h
      · cases h
      · obtain ⟨-, rfl⟩ := Prod.mk.inj (Option.some.inj h)
        exact ⟨rfl, .inl rfl⟩
  | register _ _ _ | login _ _ => cases h

theorem tracks_step {input : LoginInput} {row : User} {i : Nat}
    (hrow : row ∈ s.users.rows) (hemail : row.email = input.email)
    (htracks : ∃ call, s.calls[i]? = some call ∧ call.request = .login input ∧
      Tracks C input.password row call.stage)
    (h : step toLowerCase C s e = some t) :
    ∃ call, t.calls[i]? = some call ∧ call.request = .login input ∧
      Tracks C input.password row call.stage := by
  obtain ⟨call, hi, hrequest, htracks⟩ := htracks
  have hlt : i < s.calls.length := (List.getElem?_eq_some_iff.mp hi).1
  rcases step_cases h with ⟨-, rfl⟩ | ⟨j, other, users, call', -, hj, hresume, rfl⟩
  · exact ⟨call, (List.getElem?_append_left hlt).trans hi, hrequest, htracks⟩
  · by_cases hsame : j = i
    · subst hsame
      obtain rfl := Option.some.inj (hj.symm.trans hi)
      exact ⟨call', List.getElem?_set_self hlt, tracks_resume hrequest hrow hemail htracks hresume⟩
    · exact ⟨call, (List.getElem?_set_ne hsame).trans hi, hrequest, htracks⟩

/-- A login that follows a registration is answered 200 with that account just when its password
has the key that is stored of the registered one, and else 401. -/
theorem login_of_created {before later : List Event} {registered : RegisterInput} {u : PublicUser}
    {email password : String} {input : LoginInput} {response : Response}
    (hbefore : run (step toLowerCase C) start before = some s)
    (hcall : call ∈ s.calls) (hregistered : call.request = .register registered)
    (hcreated : call.stage = .answered (.created u))
    (h : run (step toLowerCase C) s (.login email password :: later) = some t)
    (hinput : loginSchema toLowerCase email password = some input)
    (hemail : input.email = registered.email)
    (hlogin : t.calls[s.calls.length]? = some call')
    (hanswered : call'.stage = .answered response) (hdone : response ≠ .failed) :
    ∃ row ∈ s.users.rows, u = toPublicUser row ∧ row.email = registered.email ∧
      ∃ salt key, row.passwordHash = encoded DEFAULT_N DEFAULT_r DEFAULT_p salt key ∧
        C.scrypt registered.password salt KEY_LENGTH ⟨DEFAULT_N, DEFAULT_r, DEFAULT_p⟩ = .ok key ∧
        (response = .ok u ↔ C.scrypt input.password salt KEY_LENGTH
          ⟨DEFAULT_N, DEFAULT_r, DEFAULT_p⟩ = .ok key) ∧
        (response ≠ .ok u → response = .error invalidCredentials) := by
  have hinv := inv_run hbefore
  have hfits := hinv.fits call hcall
  rw [Fits, hcreated, hregistered] at hfits
  obtain ⟨row, hrow, rfl, hrowEmail, salt, hsalt, hhash⟩ := hfits
  obtain ⟨key, hkey, htext, hverify⟩ := verifyPassword_hashPassword C hsalt hhash
  -- the login has begun, and is followed through the rest of the run
  obtain ⟨v, hv, hlater⟩ := run_cons_eq_some.mp h
  have hbegun : v.calls[s.calls.length]? = some ⟨.login input, .finding, none⟩ := by
    obtain rfl := Option.some.inj hv
    rw [List.getElem?_concat_length, Event.request, hinput]
    rfl
  obtain ⟨hinv', hrows⟩ := inv_step hinv hv
  have hfollowed := run_invariant
    (P := fun t => Inv C t ∧ row ∈ t.users.rows ∧ ∃ call, t.calls[s.calls.length]? = some call ∧
      call.request = .login input ∧ Tracks C input.password row call.stage)
    (fun _ _ _ hP hstep => ⟨(inv_step hP.1 hstep).1, (inv_step hP.1 hstep).2 hP.2.1,
      tracks_step hP.2.1 (hrowEmail.trans hemail.symm) hP.2.2 hstep⟩)
    ⟨hinv', hrows hrow, _, hbegun, rfl, trivial⟩ hlater
  obtain ⟨-, -, other, hother, -, htracks⟩ := hfollowed
  obtain rfl := Option.some.inj (hother.symm.trans hlogin)
  rw [hanswered] at htracks
  have hresponse := htracks.resolve_left hdone
  rw [verified, hverify] at hresponse
  refine ⟨row, hrow, rfl, hrowEmail, salt, key, htext, hkey, ?_⟩
  cases hactual : C.scrypt input.password salt KEY_LENGTH
      ⟨DEFAULT_N, DEFAULT_r, DEFAULT_p⟩ with
  | error _ =>
      rw [hactual] at hresponse
      rcases hresponse with heq | ⟨u, heq, -⟩
      · exact absurd (Stage.answered.inj heq).symm hdone
      · cases heq
  | ok actual =>
      rw [hactual] at hresponse
      by_cases hsame : actual = key
      · simp only [Except.map, hsame, decide_true] at hresponse
        rcases hresponse with heq | ⟨u, heq, rfl⟩
        · cases heq
        · obtain rfl := Stage.signing.inj heq
          simp [hsame]
      · simp only [Except.map, hsame, decide_false] at hresponse
        rcases hresponse with heq | ⟨u, heq, -⟩
        · obtain rfl := Stage.answered.inj heq
          simp [hsame]
        · cases heq

theorem login_of_created_ada : ∃ s t,
    run (step id plainCrypto) start ada = some s ∧
    run (step id plainCrypto) s [.login "ada@example.com" "wrong horse", .finds 1, .verifies 1] =
      some t ∧
    ∃ row ∈ s.users.rows, adaUser = toPublicUser row ∧
      ∃ salt key, row.passwordHash = encoded DEFAULT_N DEFAULT_r DEFAULT_p salt key ∧
        plainCrypto.scrypt "correct horse" salt KEY_LENGTH ⟨DEFAULT_N, DEFAULT_r, DEFAULT_p⟩ =
          .ok key ∧
        plainCrypto.scrypt "wrong horse" salt KEY_LENGTH ⟨DEFAULT_N, DEFAULT_r, DEFAULT_p⟩ ≠
          .ok key := by
  obtain ⟨s, h, hcalls⟩ := ada_runs
  have hlogin : (run (step id plainCrypto) start (ada ++
      [.login "ada@example.com" "wrong horse", .finds 1, .verifies 1])).map State.calls =
      some [⟨.register adaInput, .answered (.created adaUser), some adaUser⟩,
        ⟨.login ⟨"ada@example.com", "wrong horse"⟩, .answered (.error invalidCredentials),
          none⟩] := by
    decide +kernel
  obtain ⟨t, ht, hcalls'⟩ := Option.map_eq_some_iff.mp hlogin
  obtain ⟨u, hu, hlater⟩ := run_append_eq_some.mp ht
  obtain rfl := Option.some.inj (hu.symm.trans h)
  have hcall : ⟨.register adaInput, .answered (.created adaUser), some adaUser⟩ ∈ u.calls := by
    rw [hcalls]
    exact List.mem_singleton_self _
  have hanswered : t.calls[u.calls.length]? = some
      ⟨.login ⟨"ada@example.com", "wrong horse"⟩, .answered (.error invalidCredentials), none⟩ := by
    rw [hcalls, hcalls']
    rfl
  have hinput : loginSchema id "ada@example.com" "wrong horse" =
      some ⟨"ada@example.com", "wrong horse"⟩ := by decide +kernel
  obtain ⟨row, hrow, huser, -, salt, key, htext, hkey, hiff, -⟩ := login_of_created h hcall rfl rfl
    hlater hinput rfl hanswered rfl nofun
  exact ⟨u, t, h, hlater, row, hrow, huser, salt, key, htext, hkey,
    fun hsame => by cases hiff.mpr hsame⟩

end CollabIDE.Auth.Accounts
