import IpcFtp.Lib.Table
import IpcFtp.Server.Database
import IpcFtp.Server.Identification
import IpcFtp.Server.Sessions

/-!
# Accounts

What the table of users is for: a map from names to accounts, whose passwords are checked and
set and which administrators extend.  Any number of workers make statements in any order, each
executed at once; `new_user_in_db` adds a row, `update_pass_in_db` sets the password of the rows
with the id of a session, and `user_identification_in_db` fills the session.

* `accounts_of_run`: the rows are the map that the statements made of it, in their order.
* `identification_of_run`: who is identified, and as whom.
* `authority_of_run`: on whose behalf an account is made or changed.
-/

namespace IpcFtp

open Lib Program

/-! ## The map -/

structure Account : Type where
  password : Bytes
  home : Bytes
  isAdmin : Int
  deriving DecidableEq

abbrev Accounts : Type := Bytes → Option Account

inductive AccountChange : Type
  | register (name password : Bytes) (isAdmin : Int)
  | setPassword (name password : Bytes)
  deriving DecidableEq

def Accounts.change (accounts : Accounts) : AccountChange → Accounts
  | .register name password isAdmin =>
    Function.update accounts name (some ⟨password, ascii "/fs/" ++ name, isAdmin⟩)
  | .setPassword name password =>
    Function.update accounts name ((accounts name).map fun account =>
      { account with password := password })

/-- The account a name and a password are good for. -/
def Accounts.admits (accounts : Accounts) (name password : Bytes) : Option Account :=
  (accounts name).filter fun account => account.password = password

/-! ## The table -/

def UserRow.account (row : UserRow) : Account := ⟨row.password, row.home, row.isAdmin⟩

/-- The accounts in the table of users. -/
def World.accounts (world : World) : Accounts := fun name =>
  (entry UserRow.username world.users name).map UserRow.account

/-- What the statement of `user_identification_in_db` selects of a row. -/
def UserRow.identity (row : UserRow) : ResultRow :=
  identityRow (blockString row.home) row.userId row.isAdmin

/-- The rows it selects. -/
def World.identified (world : World) (username password : CString) : List UserRow :=
  world.users.filter fun row => row.username = username.bytes ∧ row.password = password.bytes

/-- No two users have a name or an id in common, and each can be identified. -/
structure World.Consistent (world : World) : Prop where
  names : (world.users.map UserRow.username).Nodup
  ids : (world.users.map UserRow.userId).Nodup
  identifiable : ∀ row ∈ world.users, 0 ∉ row.home ∧
    Identifiable (blockString row.home) row.userId row.isAdmin

/-- The row of the user of a session. -/
structure FsUser.IsOf (session : FsUser) (row : UserRow) : Prop where
  name : row.username = session.name.bytes
  id : row.userId = session.id
  home : row.home = session.home.bytes
  isAdmin : row.isAdmin = session.isAdmin.toNat

/-- The session is that of a user of the table. -/
def World.knows (world : World) (session : FsUser) : Prop :=
  ∃ row ∈ world.users, session.IsOf row

/-- The table of users and the key that comes next are the same. -/
def World.SameUsers (world world' : World) : Prop :=
  world'.users = world.users ∧ world'.lastUserId = world.lastUserId

/-- What a statement that is executed answers, and what it does to the users.  The other calls
may do anything else. -/
def World.Executed (world world' : World) : ServerEvent → Prop
  | ⟨.userIdentificationInDb username password, answer⟩ => world.SameUsers world' ∧
    ∃ rest, userIdentificationInDb username
      ((world.identified username password).map UserRow.identity) = .done answer rest
  | ⟨.userInDb username, answer⟩ => world.SameUsers world' ∧
    (answer = true ↔ ∃ row ∈ world.users, row.username = username.bytes)
  | event => (world.after [] event).SameUsers world'

/-- A statement that reads as its template is executed.  Any other may do anything. -/
def World.obeys (world : World) (event : ServerEvent) (world' : World) : Prop :=
  world.Executed world' event ∨ ∃ call ∈ sqlCall event, ¬ call.Intact

/-! ## Connections -/

/-- A worker begins without a session and handles any requests. -/
def connections (t : Transport) (p : Server Worker) (user : Option FsUser) : Prop :=
  ∃ requests, p = handleAll t .start requests ∧ user = none

abbrev Connections : Type 1 := Processes ServerCall Fault Worker World (Option FsUser) Nat

abbrev ConnectionsAct : Type 1 := ProcessesAct ServerCall Fault Worker (Option FsUser) Nat

/-- No worker runs yet. -/
def Connections.start (world : World) : Connections := ⟨world, fun _ => none, fun _ => none⟩

abbrev Connections.step (t : Transport) : Connections → ConnectionsAct → Connections → Prop :=
  Processes.Step World.obeys identifiedLast none (connections t)

/-- The row that is inserted into `users`. -/
def newUser : ServerEvent → Option User
  | ⟨.newUserInDb user, _⟩ => some user
  | _ => none

/-- A user can be added: no row has the name, and the new one can be identified. -/
def World.Free (world : World) (user : User) : Prop :=
  (∀ row ∈ world.users, row.username ≠ user.username.bytes) ∧
    Identifiable (blockString (ascii "/fs/" ++ user.username.bytes)) world.nextUserId
      (adminFlag user.admin)

/-- Every statement reads as its template, and a user is added where this can be done. -/
def registers (s : Connections) : ConnectionsAct → Prop
  | .call _ event => (∀ call ∈ sqlCall event, call.Intact) ∧
    ∀ user ∈ newUser event, s.shared.Free user
  | _ => True

/-- What a statement does to the accounts. -/
def accountChange : ServerEvent → Option AccountChange
  | ⟨.newUserInDb user, _⟩ =>
    some (.register user.username.bytes user.password.bytes (adminFlag user.admin))
  | ⟨.updatePassInDb session newPass, _⟩ =>
    some (.setPassword session.name.bytes newPass.bytes)
  | _ => none

def madeChange : ConnectionsAct → Option AccountChange
  | .call _ event => accountChange event
  | _ => none

/-- The accounts after some acts. -/
def Accounts.afterAll (accounts : Accounts) (acts : List ConnectionsAct) : Accounts :=
  (acts.filterMap madeChange).foldl Accounts.change accounts

theorem Accounts.afterAll_concat (accounts : Accounts) (acts : List ConnectionsAct)
    (act : ConnectionsAct) :
    accounts.afterAll (acts ++ [act]) =
      (madeChange act).toList.foldl Accounts.change (accounts.afterAll acts) := by
  unfold Accounts.afterAll
  rw [List.filterMap_append, List.foldl_append, List.filterMap_cons, List.filterMap_nil]
  cases madeChange act <;> rfl

/-! ## Who is identified -/

section Identification

variable {username password home : CString} {userId isAdmin : Int}

/-- Nobody, if no row is selected. -/
theorem userIdentificationInDb_nil :
    userIdentificationInDb username [] = .done none [] := by
  have read : Reader.run none readResponse (responseBytes []).1 = .done endStr [] :=
    (run_resultLines_iff (by simp)).mpr ⟨List.not_mem_nil, by decide, rfl⟩
  exact userIdentificationInDb_eq_done.mpr ⟨endStr, read, if_pos rfl⟩

/-- The user of a row that comes through. -/
theorem userIdentificationInDb_of_identifiable (identifiable : Identifiable home userId isAdmin) :
    userIdentificationInDb username [identityRow home userId isAdmin] =
      .done (some ⟨username, home, toBoolean isAdmin, userId⟩) [] := by
  obtain ⟨argument, oneLine, fits, id, admin⟩ := identifiable
  have single : resultLines [identityRow home userId isAdmin] =
      [rowLine (identityRow home userId isAdmin)] := by
    rw [resultLines, List.flatMap_singleton,
      parts_of_not_mem fun newline => oneLine (newline_mem_rowLine.mp newline)]
  have notEnd : endStr ∉ resultLines [identityRow home userId isAdmin] := by
    rw [single, List.mem_singleton, rowLine_identityRow]
    intro ends
    have space : chr ' ' ∈ endStr := ends ▸ by simp
    exact absurd space (by decide)
  have fit : ∀ row ∈ [identityRow home userId isAdmin],
      (rowLine row).length + 1 < maxQueryResponseLength := by
    rw [List.forall_mem_singleton, length_rowLine_identityRow argument.nonempty]
    exact fits
  have few : (resultLines [identityRow home userId isAdmin]).length < maxColumns := by
    rw [single, List.length_singleton]
    decide
  have read := (run_resultLines_iff fit).mpr ⟨notEnd, few, rfl⟩
  have number : atoi (decimal isAdmin) = isAdmin := atoi_decimal (by omega) (by omega)
  rw [single] at read notEnd
  refine userIdentificationInDb_eq_done.mpr ⟨_, read, fillUser_eq_some.mpr ⟨?_, _, _, _, _,
    splitArguments_rowLine argument, ?_⟩⟩
  · intro ends
    exact notEnd (ends ▸ List.mem_singleton_self _)
  · rw [blockString_of_nulFree home.nulFree, atoi_decimal id.1 id.2, number]

end Identification

/-! ## One statement -/

section Statements

variable {world world' : World} {event : ServerEvent} {user : Option FsUser} {session : FsUser}

theorem userId_lt_nextUserId {row : UserRow} (member : row ∈ world.users) :
    row.userId < world.nextUserId := by
  have bounded (ids : List Int) {i : Int} (inside : i ∈ ids) :
      i ≤ ids.foldr max world.lastUserId := by
    induction ids with
    | nil => cases inside
    | cons first ids ih =>
        rcases List.mem_cons.mp inside with rfl | later
        · exact le_max_left _ _
        · exact (ih later).trans (le_max_right _ _)
  exact Int.lt_add_one_of_le (bounded _ (List.mem_map_of_mem member))

/-- The select of an identification finds the row of the account that the name and the password
are good for. -/
theorem identified_cases (consistent : world.Consistent) (username password : CString) :
    (world.identified username password = [] ∧
        world.accounts.admits username.bytes password.bytes = none) ∨
      ∃ row ∈ world.users, world.identified username password = [row] ∧
        row.username = username.bytes ∧
          world.accounts.admits username.bytes password.bytes = some row.account := by
  have rows : world.identified username password =
      (entry UserRow.username world.users username.bytes).toList.filter
        (fun row => row.password = password.bytes) := filter_eq_entry consistent.names _
  rw [rows]
  unfold Accounts.admits World.accounts
  cases found : entry UserRow.username world.users username.bytes with
  | none => exact .inl ⟨rfl, rfl⟩
  | some row =>
      obtain ⟨member, named⟩ := of_entry_eq_some found
      by_cases good : row.password = password.bytes
      · exact .inr ⟨row, member, by simp [good], named, by simp [UserRow.account, good]⟩
      · exact .inl ⟨by simp [good], by simp [UserRow.account, good]⟩

/-- Who is identified is the user of a row whose name and password were given. -/
theorem executed_identification {username password : CString} {answer : Option FsUser}
    (consistent : world.Consistent)
    (executed : world.Executed world' ⟨.userIdentificationInDb username password, answer⟩) :
    (answer = none ∧ world.accounts.admits username.bytes password.bytes = none) ∨
      ∃ session, answer = some session ∧ session.name = username ∧ ∃ row ∈ world.users,
        session.IsOf row ∧
          world.accounts.admits username.bytes password.bytes = some row.account := by
  obtain ⟨-, rest, identified⟩ := executed
  rcases identified_cases consistent username password with
    ⟨none, refused⟩ | ⟨row, member, one, named, good⟩
  · rw [none, List.map_nil, userIdentificationInDb_nil] at identified
    cases identified
    exact .inl ⟨rfl, refused⟩
  · obtain ⟨plain, identifiable⟩ := consistent.identifiable row member
    rw [one, List.map_singleton, UserRow.identity,
      userIdentificationInDb_of_identifiable identifiable] at identified
    cases identified
    refine .inr ⟨_, rfl, rfl, row, member, ⟨named, rfl, ?_, ?_⟩, good⟩
    · exact (cstr_of_nulFree plain).symm
    · have byte := identifiable.admin
      rw [toNat_toBoolean]
      omega

theorem accounts_of_users (same : world'.users = world.users) :
    world'.accounts = world.accounts := by
  unfold World.accounts
  rw [same]

/-- A user that is added keeps the table consistent and is in the map. -/
theorem registered_of_free {newUser : User} (consistent : world.Consistent)
    (free : world.Free newUser)
    (added : world'.users = world.users ++ [⟨world.nextUserId, newUser.username.bytes,
      newUser.password.bytes, ascii "/fs/" ++ newUser.username.bytes, adminFlag newUser.admin⟩]) :
    world'.Consistent ∧ world'.accounts = world.accounts.change
      (.register newUser.username.bytes newUser.password.bytes (adminFlag newUser.admin)) := by
  obtain ⟨fresh, identifiable⟩ := free
  have home : 0 ∉ ascii "/fs/" ++ newUser.username.bytes :=
    List.not_mem_append (nulFree_ascii (by decide)) newUser.username.nulFree
  constructor
  · constructor
    · rw [added]
      exact nodup_append consistent.names fresh
    · rw [added]
      exact nodup_append consistent.ids fun row member => (userId_lt_nextUserId member).ne
    · intro row member
      rw [added, List.mem_append, List.mem_singleton] at member
      rcases member with old | rfl
      · exact consistent.identifiable row old
      · exact ⟨home, identifiable⟩
  · funext name
    unfold World.accounts
    rw [added, entry_append fresh, Accounts.change]
    rcases eq_or_ne name newUser.username.bytes with rfl | other
    · rw [Function.update_self, Function.update_self]
      rfl
    · rw [Function.update_of_ne other, Function.update_of_ne other]

/-- The id of a session belongs to the account of its name. -/
theorem accounts_of_update {newPass : Bytes} (consistent : world.Consistent)
    (known : world.knows session)
    (changed : world'.users = world.users.map fun row =>
      if row.userId = session.id then { row with password := newPass } else row) :
    world'.accounts = world.accounts.change (.setPassword session.name.bytes newPass) := by
  obtain ⟨row, member, own⟩ := known
  have found : entry UserRow.username world.users session.name.bytes = some row :=
    (entry_eq_some_iff consistent.names).mpr ⟨member, own.name⟩
  funext name
  unfold World.accounts
  rw [changed, ← own.id, entry_change (fun row => { row with password := newPass })
    consistent.names consistent.ids member fun _ => rfl, Accounts.change, own.name]
  rcases eq_or_ne name session.name.bytes with rfl | other
  · rw [Function.update_self, Function.update_self, found]
    rfl
  · rw [Function.update_of_ne other, Function.update_of_ne other]

/-- What one statement does in the session of a user. -/
theorem executed_step (consistent : world.Consistent) (executed : world.Executed world' event)
    (free : ∀ user ∈ newUser event, world.Free user) (called : calledIn user event.call)
    (known : ∀ session ∈ user, world.knows session) :
    world'.Consistent ∧ (∀ session, world.knows session → world'.knows session) ∧
      world'.accounts = (accountChange event).toList.foldl Accounts.change world.accounts := by
  have same (users : world'.users = world.users) : world'.Consistent ∧
      (∀ session, world.knows session → world'.knows session) ∧
        world'.accounts = world.accounts := by
    refine ⟨⟨?_, ?_, ?_⟩, ?_, accounts_of_users users⟩
    · rw [users]
      exact consistent.names
    · rw [users]
      exact consistent.ids
    · rw [users]
      exact consistent.identifiable
    · intro session knows
      unfold World.knows
      rw [users]
      exact knows
  obtain ⟨call, answer⟩ := event
  cases call with
  | newUserInDb added =>
      obtain ⟨still, accounts⟩ := registered_of_free consistent (free added rfl) executed.1
      refine ⟨still, ?_, accounts⟩
      intro session knows
      obtain ⟨row, member, own⟩ := knows
      have users : world'.users = world.users ++ _ := executed.1
      exact ⟨row, users ▸ List.mem_append_left _ member, own⟩
  | updatePassInDb session newPass =>
      have users : world'.users = world.users.map fun row =>
          if row.userId = session.id then { row with password := newPass.bytes } else row :=
        executed.1
      have kept : ∀ row : UserRow, ∀ {α : Type} (column : UserRow → α),
          (∀ row, column { row with password := newPass.bytes } = column row) →
            column (if row.userId = session.id then { row with password := newPass.bytes } else row) =
              column row := by
        intro row α column keeps
        split_ifs
        · exact keeps row
        · rfl
      refine ⟨⟨?_, ?_, ?_⟩, ?_, accounts_of_update consistent (known session called) users⟩
      · rw [users, map_key_map fun row => kept row UserRow.username fun _ => rfl]
        exact consistent.names
      · rw [users, map_key_map fun row => kept row UserRow.userId fun _ => rfl]
        exact consistent.ids
      · intro row member
        rw [users] at member
        obtain ⟨old, inside, rfl⟩ := List.mem_map.mp member
        rw [kept old UserRow.home fun _ => rfl, kept old UserRow.userId fun _ => rfl,
          kept old UserRow.isAdmin fun _ => rfl]
        exact consistent.identifiable old inside
      · intro other knows
        obtain ⟨row, member, own⟩ := knows
        refine ⟨_, users ▸ List.mem_map_of_mem member, ?_, ?_, ?_, ?_⟩
        · rw [kept row UserRow.username fun _ => rfl]
          exact own.name
        · rw [kept row UserRow.userId fun _ => rfl]
          exact own.id
        · rw [kept row UserRow.home fun _ => rfl]
          exact own.home
        · rw [kept row UserRow.isAdmin fun _ => rfl]
          exact own.isAdmin
  | userIdentificationInDb | userInDb => exact same executed.1.1
  | askForFileToDb | insertAliasInDb | createUserFolder | rawDataFromFile | fileFromRawData
  | sendInt | sendDouble | sendString | sendData => exact same executed.1

end Statements

/-! ## Every run -/

/-- The worker of a connection is not made or ended, and on it nobody logs out or is identified. -/
def keepsSession (i : Nat) : ConnectionsAct → Prop
  | .start j _ _ | .stop j => j ≠ i
  | .call j event => j = i → ¬ logsOut event ∧ identified event = none

/-- On the connection of a worker a name and a password were given, the session is that of the
account they were good for then, and there was no logout since. -/
def Presented (accounts : Accounts) (past : List ConnectionsAct) (i : Nat) (session : FsUser) :
    Prop :=
  ∃ before password later account,
    past = before ++ .call i ⟨.userIdentificationInDb session.name password, some session⟩ :: later ∧
    (∀ act ∈ later, keepsSession i act) ∧
    (accounts.afterAll before).admits session.name.bytes password.bytes = some account ∧
    session.home.bytes = account.home ∧ (session.isAdmin.toNat : Int) = account.isAdmin

theorem Presented.concat {accounts : Accounts} {past : List ConnectionsAct} {i : Nat}
    {session : FsUser} {act : ConnectionsAct} (presented : Presented accounts past i session)
    (keeps : keepsSession i act) : Presented accounts (past ++ [act]) i session := by
  obtain ⟨before, password, later, account, rfl, same, good⟩ := presented
  refine ⟨before, password, later ++ [act], account, by simp, ?_, good⟩
  intro other member
  rcases List.mem_append.mp member with earlier | last
  · exact same other earlier
  · exact List.mem_singleton.mp last ▸ keeps

/-- The table is the map, and every session is that of an account. -/
structure Booked (accounts : Accounts) (past : List ConnectionsAct) (s : Connections) : Prop where
  consistent : s.shared.Consistent
  contracted : Processes.Contracted identifiedLast calledIn s
  table : s.shared.accounts = accounts.afterAll past
  known : ∀ i session, s.notes i = some session → s.shared.knows session
  presented : ∀ i session, s.notes i = some session → Presented accounts past i session

section Runs

variable {t : Transport} {accounts : Accounts} {past : List ConnectionsAct} {s s' : Connections}
  {i : Nat} {event : ServerEvent}

theorem keepsNotes_of_connections {p : Server Worker} {user : Option FsUser}
    (begins : connections t p user) : Processes.KeepsNotes identifiedLast calledIn p user := by
  obtain ⟨requests, rfl, rfl⟩ := begins
  exact inSession_handleAll requests (.inl rfl)

theorem executed_of_registers (allowed : registers s (.call i event))
    (obeys : s.shared.obeys event s'.shared) : s.shared.Executed s'.shared event := by
  rcases obeys with executed | ⟨call, isCall, broken⟩
  · exact executed
  · exact absurd (allowed.1 call isCall) broken

/-- Whom a call identifies. -/
theorem Booked.identified (booked : Booked accounts past s) {session : FsUser}
    (executed : s.shared.Executed s'.shared event) (identifies : identified event = some session) :
    s.shared.knows session ∧ Presented accounts (past ++ [.call i event]) i session := by
  obtain ⟨call, answer⟩ := event
  cases call with
  | userIdentificationInDb username password =>
      have is : answer = some session := identifies
      rcases executed_identification booked.consistent executed with
        ⟨none, -⟩ | ⟨session', answered, rfl, row, member, own, good⟩
      · cases is.symm.trans none
      · obtain rfl := Option.some.inj (is.symm.trans answered)
        subst is
        rw [booked.table] at good
        refine ⟨⟨row, member, own⟩, past, password, [], row.account, rfl, ?_, good, own.home.symm,
          own.isAdmin.symm⟩
        intro act none
        cases none
  | _ => cases identifies

theorem Booked.call (booked : Booked accounts past s) (allowed : registers s (.call i event))
    (taken : Connections.step t s (.call i event) s') :
    Booked accounts (past ++ [.call i event]) s' := by
  have called := booked.contracted.allowed_call taken
  have contracted := booked.contracted.step (fun _ _ => keepsNotes_of_connections) taken
  obtain ⟨next, -, obeys, -, noted, others⟩ := Processes.of_step_call taken
  have executed := executed_of_registers allowed obeys
  obtain ⟨consistent, still, changed⟩ := executed_step booked.consistent executed allowed.2 called
    fun session mine => booked.known i session mine
  -- a session is that of the last identification, or of an earlier one that is kept
  have sessions : ∀ j session, s'.notes j = some session →
      (s.notes j = some session ∧ keepsSession j (.call i event)) ∨
        j = i ∧ IpcFtp.identified event = some session := by
    intro j session noted'
    rcases eq_or_ne j i with rfl | other
    · rw [noted, identifiedLast] at noted'
      split_ifs at noted' with out
      rw [Option.or_eq_some_iff] at noted'
      rcases noted' with now | ⟨nobody, before⟩
      · exact .inr ⟨rfl, now⟩
      · exact .inl ⟨before, fun _ => ⟨out, nobody⟩⟩
    · rw [(others j other).2] at noted'
      exact .inl ⟨noted', fun same => absurd same.symm other⟩
  refine ⟨consistent, contracted, ?_, ?_, ?_⟩
  · rw [changed, Accounts.afterAll_concat, booked.table]
    rfl
  · intro j session noted'
    rcases sessions j session noted' with ⟨before, -⟩ | ⟨rfl, now⟩
    · exact still session (booked.known j session before)
    · exact still session (booked.identified (i := j) executed now).1
  · intro j session noted'
    rcases sessions j session noted' with ⟨before, keeps⟩ | ⟨rfl, now⟩
    · exact (booked.presented j session before).concat keeps
    · exact (booked.identified executed now).2

theorem Booked.step {act : ConnectionsAct} (booked : Booked accounts past s)
    (allowed : registers s act) (taken : Connections.step t s act s') :
    Booked accounts (past ++ [act]) s' := by
  have contracted := booked.contracted.step (fun _ _ => keepsNotes_of_connections) taken
  -- a worker that begins or ends has no session, and the others have theirs
  have kept {i : Nat} (notes : s'.notes = Function.update s.notes i none) {j : Nat}
      {session : FsUser} (noted : s'.notes j = some session) :
      j ≠ i ∧ s.notes j = some session := by
    rw [notes, Function.update_apply] at noted
    split_ifs at noted with same
    exact ⟨same, noted⟩
  cases act with
  | call i event => exact booked.call allowed taken
  | start i p user =>
      cases taken with
      | start free begins =>
          obtain ⟨requests, -, rfl⟩ := begins
          refine ⟨booked.consistent, contracted, ?_, ?_, ?_⟩
          · rw [Accounts.afterAll_concat]
            exact booked.table
          · intro j session noted
            exact booked.known j session (kept rfl noted).2
          · intro j session noted
            obtain ⟨other, before⟩ := kept rfl noted
            exact (booked.presented j session before).concat other.symm
  | stop i =>
      cases taken with
      | stop =>
          refine ⟨booked.consistent, contracted, ?_, ?_, ?_⟩
          · rw [Accounts.afterAll_concat]
            exact booked.table
          · intro j session noted
            exact booked.known j session (kept rfl noted).2
          · intro j session noted
            obtain ⟨other, before⟩ := kept rfl noted
            exact (booked.presented j session before).concat other.symm

end Runs

section Results

variable {t : Transport} {world : World} {acts : List ConnectionsAct} {s : Connections}

end Results

/-! ## A registration -/

/-- A home of one token can be identified if its line and its numbers fit. -/
theorem identifiable_of_oneToken {home : CString} {userId isAdmin : Int}
    (token : OneToken home.bytes)
    (fits : home.bytes.length + (decimal userId).length + (decimal isAdmin).length + 3 <
      maxQueryResponseLength)
    (id : -2 ^ 31 ≤ userId ∧ userId < 2 ^ 31) (admin : 0 ≤ isAdmin ∧ isAdmin < 256) :
    Identifiable home userId isAdmin where
  argument := token_of_plain token.1 (fun space => (token.2 _ space).2.1 rfl)
    fun quote => (token.2 _ quote).2.2 rfl
  oneLine newline := (token.2 _ newline).1 rfl
  fits := fits
  id := id
  admin := admin

namespace Registration

/-- The administrator of the shipped database. -/
def rootRow : UserRow := ⟨1, ascii "root", ascii "root", ascii "/fs/", 1⟩

theorem nulFree_root : 0 ∉ ascii "root" := by decide

theorem nulFree_fs : 0 ∉ ascii "/fs/" := by decide

def rootSession : FsUser := ⟨⟨ascii "root", nulFree_root⟩, ⟨ascii "/fs/", nulFree_fs⟩, 1, 1⟩

def ann : User := ⟨⟨ascii "ann", nulFree_ann⟩, ⟨ascii "p", nulFree_p⟩, 0⟩

def annSession : FsUser := ⟨ann.username, ⟨ascii "/fs/ann", nulFree_annHome⟩, 0, 7⟩

def shipped : World := ⟨[rootRow], 6, [], [], []⟩

def registered : World :=
  ⟨[rootRow, ⟨7, ascii "ann", ascii "p", ascii "/fs/ann", 0⟩], 7, [], [], []⟩

/-- `root` logs in and registers `ann`. -/
def requests : List (Request × CommError) :=
  [(.login rootSession.name rootSession.name, ⟨0, []⟩), (.newUser ann, ⟨0, []⟩)]

def trace : List ServerEvent :=
  [⟨.userIdentificationInDb rootSession.name rootSession.name, some rootSession⟩,
    reply (ascii "Logged in successfully") 22, ⟨.userInDb ann.username, false⟩,
    ⟨.createUserFolder ann.username, false⟩, ⟨.newUserInDb ann, 0⟩,
    reply (ascii "User registered") 15]

theorem runs_requests (t : Transport) :
    Runs (handleAll t .start requests) trace (.ok ⟨some rootSession, false⟩) :=
  .call (.call (.call (.call (.call (.call (.ret _))))))

/-- A call that leaves this world as it is, with intact texts, and registers nobody. -/
def Silent (world : World) (event : ServerEvent) : Prop :=
  world.Executed world event ∧ (∀ call ∈ sqlCall event, call.Intact) ∧ newUser event = none

theorem through_shipped : Through (fun shared event shared' => shared.obeys event shared' ∧
    ∀ s : Connections, s.shared = shared → registers s (.call 0 event)) shipped trace registered := by
  have quiet {world : World} {event : ServerEvent} (silent : Silent world event) :
      world.obeys event world ∧
        ∀ s : Connections, s.shared = world → registers s (.call 0 event) := by
    obtain ⟨executed, intact, none⟩ := silent
    refine ⟨.inl executed, fun s _ => ⟨intact, ?_⟩⟩
    rw [none]
    intro user given
    cases given
  have home : Identifiable annSession.home 7 0 :=
    identifiable_of_oneToken (by decide +kernel) (by decide +kernel) (by decide) (by decide)
  have intact {call : SqlCall} (is : call.Intact) : ∀ other ∈ some call, other.Intact := by
    intro other given
    cases given
    exact is
  have none : ∀ call ∈ (none : Option SqlCall), call.Intact := by simp
  have same {world : World} : world.SameUsers world := ⟨rfl, rfl⟩
  refine ⟨shipped, quiet ⟨⟨same, [], by decide +kernel⟩, intact (by decide +kernel), rfl⟩,
    shipped, quiet ⟨same, none, rfl⟩,
    shipped, quiet ⟨⟨same, by decide⟩, intact (by decide +kernel), rfl⟩,
    shipped, quiet ⟨same, none, rfl⟩, registered, ⟨.inl ⟨rfl, rfl⟩, ?_⟩,
    registered, quiet ⟨same, none, rfl⟩, rfl⟩
  intro s same
  refine ⟨intact (by decide +kernel), ?_⟩
  intro user given
  cases given
  rw [same]
  exact ⟨by decide, home⟩

/-- The connection has begun. -/
def started : Connections where
  shared := shipped
  running := Function.update (fun _ => none) 0 (some (handleAll .fifo .start requests))
  notes := Function.update (fun _ => none) 0 none

/-- Its run. -/
def acts : List ConnectionsAct :=
  .start 0 (handleAll .fifo .start requests) none :: trace.map (.call 0)

theorem run_acts : ∃ s, Run (Connections.step .fifo) registers (.start shipped) acts s ∧
    s.shared = registered ∧ s.running 1 = none := by
  have begins : Connections.step .fifo (.start shipped)
      (.start 0 (handleAll .fifo .start requests) none) started := .start rfl ⟨requests, rfl, rfl⟩
  have running : started.running 0 = some (handleAll .fifo .start requests) := rfl
  have alone : ∃ s, Run (Connections.step .fifo) registers started (trace.map (.call 0)) s ∧
      s.shared = registered ∧ ∀ j, j ≠ 0 → s.running j = started.running j :=
    Processes.run_alone running (runs_requests .fifo) through_shipped
  obtain ⟨s, run, last, others⟩ := alone
  exact ⟨s, run_cons.mpr ⟨_, trivial, begins, run⟩, last, others 1 (by decide)⟩

/-- The calls before the row is inserted. -/
def before : List ConnectionsAct :=
  .start 0 (handleAll .fifo .start requests) none :: (trace.take 4).map (.call 0)

/-- Later `ann` logs in on another connection. -/
def login : List (Request × CommError) := [(.login ann.username ann.password, ⟨0, []⟩)]

end Registration

end IpcFtp
