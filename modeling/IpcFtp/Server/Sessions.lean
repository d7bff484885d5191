import IpcFtp.Lib.Processes
import IpcFtp.Server.Authorization

/-!
# The session of a worker

A worker handles the requests of its connection one after another, with one record of a user.
Whatever its calls are answered, every call for a session is made in the session that was
identified last and has not logged out since, and only an administrator's session looks for names
and makes users.
-/

namespace IpcFtp

open Lib Program

/-- The requests of a connection in the order in which their threads take the mutex, each with
the first contents of its error object. -/
def handleAll (t : Transport) : Worker → List (Request × CommError) → Server Worker
  | worker, [] => return worker
  | worker, (request, err) :: later => do
    let after ← serverResponder t worker request err
    handleAll t after.1 later

/-- The reply to a logout. -/
def logsOut : ServerEvent → Prop
  | ⟨.sendData data _, _⟩ => data = ascii "Log out successful"
  | _ => False

def repliedText : ServerEvent → Option Bytes
  | ⟨.sendData data _, _⟩ => some data
  | _ => none

theorem logsOut_iff (event : ServerEvent) :
    repliedText event = some (ascii "Log out successful") ↔ logsOut event := by
  obtain ⟨call, answer⟩ := event
  cases call with
  | sendData data size => exact Option.some_inj
  | _ => exact iff_of_false (Option.some_ne_none _).symm not_false

instance (event : ServerEvent) : Decidable (logsOut event) :=
  decidable_of_iff _ (logsOut_iff event)

/-- The user that was identified last and has not logged out. -/
def identifiedLast (user : Option FsUser) (event : ServerEvent) : Option FsUser :=
  if logsOut event then none else (identified event).or user

/-- What is called in the session of a user. -/
def calledIn (user : Option FsUser) {β : Type} : ServerCall β → Prop
  | .askForFileToDb _ session | .insertAliasInDb _ session | .updatePassInDb session _ =>
    user = some session
  | .userInDb _ | .createUserFolder _ | .newUserInDb _ =>
    ∃ session, user = some session ∧ session.isAdmin ≠ 0
  | .rawDataFromFile _ | .fileFromRawData _ _ _ => user ≠ none
  | _ => True

/-- The record a worker keeps: none, or the user's. -/
def Worker.keeps (worker : Worker) (user : Option FsUser) : Prop :=
  worker.user = none ∨ worker.user = user

section Contracts

variable {t : Transport} {worker : Worker} {user : Option FsUser} {err : CommError}

/-- A program that calls in sessions only. -/
abbrev InSession {α : Type} (p : Server α) (post : Except Fault α → Option FsUser → Prop)
    (user : Option FsUser) : Prop :=
  p.Meets (fun user event user' => user' = identifiedLast user event) calledIn post user

/-- What a request leaves. -/
def Leaves (result : Except Fault (Worker × CommError)) (user : Option FsUser) : Prop :=
  ∀ after, result = .ok after → after.1.keeps user

theorem leaves_ok {after : Worker × CommError} (keeps : after.1.keeps user) :
    Leaves (.ok after) user := by
  intro other same
  cases same
  exact keeps

/-- A call that identifies nobody and is not the reply to a logout. -/
theorem inSession_call {α β : Type} {c : ServerCall β} {next : β → Server α}
    {post : Except Fault α → Option FsUser → Prop} (called : calledIn user c)
    (silent : ∀ b, ¬ logsOut ⟨c, b⟩ ∧ identified ⟨c, b⟩ = none)
    (rest : ∀ b, InSession (next b) post user) : InSession (.call c next) post user := by
  refine ⟨called, ?_⟩
  intro b user' same
  rw [identifiedLast, if_neg (silent b).1, (silent b).2, Option.none_or] at same
  exact same ▸ rest b

/-- A reply that is not to a logout, and the end. -/
theorem inSession_reply {data : Bytes} {size : Nat} {after : Worker × CommError}
    (other : data ≠ ascii "Log out successful") (keeps : after.1.keeps user) :
    InSession (.call (.sendData data size) fun _ => .ret after) Leaves user :=
  inSession_call trivial (fun _ => ⟨other, rfl⟩) fun _ => leaves_ok keeps

/-- The reply to a request that has no session. -/
theorem inSession_notLogged {after : Worker × CommError} (keeps : after.1.keeps user) :
    InSession (.call (.sendData (ascii "NOT logged") 10) fun _ => .ret after) Leaves user :=
  inSession_reply (by decide) keeps

/-- A file is sent as digits. -/
theorem encodeRawData_ne_logout (contents : Bytes) :
    encodeRawData contents ≠ ascii "Log out successful" := by
  intro same
  have letter : chr 'L' ∈ encodeRawData contents := same ▸ List.mem_cons_self
  exact absurd (isDigit_of_mem_encodeRawData letter) (by decide)

theorem inSession_serverResponder (request : Request) (keeps : worker.keeps user) :
    InSession (serverResponder t worker request err) Leaves user := by
  obtain ⟨record, closed⟩ := worker
  have fault {e : Fault} : InSession (.fault e) Leaves user := by
    intro after same
    cases same
  have own {session : FsUser} (given : record = some session) : user = some session :=
    keeps.elim (fun none => by cases given.symm.trans none) fun same => same.symm.trans given
  cases request with
  | int i =>
      rw [serverResponder]
      split_ifs
      · exact inSession_call trivial (fun _ => ⟨not_false, rfl⟩) fun _ => leaves_ok keeps
      · exact fault
  | double d => exact inSession_call trivial (fun _ => ⟨not_false, rfl⟩) fun _ => leaves_ok keeps
  | string str =>
      rw [serverResponder]
      split_ifs
      · exact fault
      · exact inSession_call trivial (fun _ => ⟨not_false, rfl⟩) fun _ => leaves_ok keeps
  | close | other kind => exact leaves_ok keeps
  | get path =>
      cases record with
      | none => exact inSession_notLogged keeps
      | some session =>
          refine inSession_call (own rfl) (fun _ => ⟨not_false, rfl⟩) fun found => ?_
          cases found with
          | none => exact inSession_reply (by decide) keeps
          | some row =>
              have logged : user ≠ none := by rw [own rfl]; exact Option.some_ne_none _
              refine inSession_call logged (fun _ => ⟨not_false, rfl⟩) fun opened => ?_
              cases opened with
              | none => exact fault
              | some contents => exact inSession_reply (encodeRawData_ne_logout _) keeps
  | post data dest size =>
      cases record with
      | none => exact inSession_notLogged keeps
      | some session =>
          refine inSession_call (own rfl) (fun _ => ⟨not_false, rfl⟩) fun found => ?_
          cases found with
          | some row => exact inSession_reply (by decide) keeps
          | none =>
              refine inSession_call (own rfl) (fun _ => ⟨not_false, rfl⟩) fun inserted => ?_
              have logged : user ≠ none := by rw [own rfl]; exact Option.some_ne_none _
              cases decodeToRawData data.bytes with
              | error e => exact fault
              | ok block =>
                  exact inSession_call logged (fun _ => ⟨not_false, rfl⟩) fun written =>
                    inSession_reply (by decide) keeps
  | login username password =>
      cases record with
      | some session => exact inSession_reply (by decide) keeps
      | none =>
          refine ⟨trivial, ?_⟩
          intro found user' same
          subst same
          cases found with
          | none => exact inSession_reply (by decide) (.inl rfl)
          | some filled => exact inSession_reply (by decide) (.inr rfl)
  | logout =>
      cases record with
      | none => exact inSession_notLogged keeps
      | some session => exact ⟨trivial, fun _ _ _ => leaves_ok (.inl rfl)⟩
  | newUser newUser =>
      cases record with
      | none => exact inSession_notLogged keeps
      | some session =>
          simp only [serverResponder, processNewUserCmd, checkUserLogged, pure_bind, sendData,
            perform_bind]
          split_ifs with plain
          · exact inSession_reply (by decide) keeps
          · have admin : ∃ session, user = some session ∧ session.isAdmin ≠ 0 :=
              ⟨session, own rfl, plain⟩
            refine inSession_call admin (fun _ => ⟨not_false, rfl⟩) fun found => ?_
            cases found with
            | true => exact inSession_reply (by decide) keeps
            | false =>
                have register {next : CommError → Server (Worker × CommError)}
                    (rest : ∀ err, InSession (next err) Leaves user) :
                    InSession (registerUser t newUser >>= next) Leaves user :=
                  inSession_call admin (fun _ => ⟨not_false, rfl⟩) fun _ =>
                    inSession_call trivial
                      (fun _ => ⟨(by decide : ascii "User registered" ≠ _), rfl⟩) fun _ => rest _
                refine inSession_call admin (fun _ => ⟨not_false, rfl⟩) fun comesBack => ?_
                have last : InSession (registerUser t newUser >>= fun err =>
                    pure (⟨some session, closed⟩, err)) Leaves user :=
                  register fun _ => leaves_ok keeps
                cases comesBack with
                | false => exact last
                | true => exact register fun _ => last
  | changePass pass =>
      cases record with
      | none => exact inSession_notLogged keeps
      | some session =>
          exact inSession_call (own rfl) (fun _ => ⟨not_false, rfl⟩) fun _ =>
            inSession_reply (by decide) keeps

/-- A worker calls in sessions only, however its calls are answered. -/
theorem inSession_handleAll (requests : List (Request × CommError)) (keeps : worker.keeps user) :
    InSession (handleAll t worker requests) (fun _ _ => True) user := by
  induction requests generalizing worker user with
  | nil => exact trivial
  | cons first later ih =>
      obtain ⟨request, err⟩ := first
      refine Meets.bind ((inSession_serverResponder request keeps).mono ?_)
      intro result user leaves
      cases result with
      | error e => trivial
      | ok after => exact ih (leaves after rfl)

end Contracts

end IpcFtp
