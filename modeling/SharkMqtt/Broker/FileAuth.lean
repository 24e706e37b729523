import Mathlib.Data.List.AList
import SharkMqtt.Protocol.Topic

/-!
# Credentials from a file

`broker/auth_file.go`. `LoadFile` replaces the users and then builds the index of their
names, so a name that occurs twice is noticed only when the users before the call are gone:
the index ends in front of the second occurrence. A file that cannot be read or parsed leaves
everything as it was.
-/

namespace SharkMqtt.Broker.FileAuth

structure UserCredential where
  username : Str
  password : Str
  clientIDs : List Str := []

structure Credentials where
  users : List UserCredential := []
  userIndex : AList (fun _ : Str => ℕ) := ∅

inductive Outcome where
  | accepted
  | userNotFound
  | authFailed
  | unauthorized
  /-- An index outside the users. -/
  | panics
deriving DecidableEq

def isBcryptHash (stored : Str) : Bool :=
  (ascii "$2a$").isPrefixOf stored || (ascii "$2b$").isPrefixOf stored ||
    (ascii "$2y$").isPrefixOf stored

/-- The checks of `Authenticate` once it has found the user; `bcrypt` is
`CompareHashAndPassword`. -/
def UserCredential.check (bcrypt : Str → Str → Bool) (user : UserCredential)
    (clientID password : Str) : Outcome :=
  let matched := if isBcryptHash user.password then bcrypt user.password password
    else decide (password = user.password)
  if matched = false then .authFailed
  else if user.clientIDs ≠ [] ∧ clientID ∉ user.clientIDs then .unauthorized
  else .accepted

def authenticate (bcrypt : Str → Str → Bool) (f : Credentials)
    (clientID username password : Str) : Outcome :=
  match f.userIndex.lookup username with
  | none => .userNotFound
  | some idx =>
    match f.users[idx]? with
    | none => .panics
    | some user => user.check bcrypt clientID password

/-- How users are recognised: by the first of the name. -/
def answer (bcrypt : Str → Str → Bool) (l : List UserCredential)
    (clientID username password : Str) : Outcome :=
  match l.find? fun u => u.username = username with
  | none => .userNotFound
  | some user => user.check bcrypt clientID password

/-- The users ahead of the first whose name has occurred. -/
def ahead (seen : List Str) : List UserCredential → List UserCredential
  | [] => []
  | u :: rest => if u.username ∈ seen then [] else u :: ahead (u.username :: seen) rest

/-! ## The index -/

variable {index : AList fun _ : Str => ℕ} {l : List UserCredential} {seen : List Str}

section Seen

variable (hseen : ∀ name, name ∈ seen ↔ (index.lookup name).isSome)

include hseen

end Seen

end SharkMqtt.Broker.FileAuth
