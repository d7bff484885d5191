import IpcFtp.Lib.PathResolve
import IpcFtp.Server.Authorization
import IpcFtp.Server.Database

/-!
# Which files the server opens

A post writes to `.home/dest` and a get reads the path of a row whose alias is the asked
one and whose path matches the pattern `home%`.  Neither checks the path.  If no alias
climbs, no home matches another user's pattern, and the statements are intact, every file
that is opened lies below the home of the user it is opened for.
-/

namespace IpcFtp

open Lib Program

/-! ## Paths as bytes -/

/-- One component of a path. -/
def component (name : Bytes) : Component Bytes :=
  if name = [] ∨ name = ascii "." then .here
  else if name = ascii ".." then .up
  else .name name

/-- The components of a path behind the letters of one that has begun. -/
def componentsFrom : Bytes → Bytes → List (Component Bytes)
  | pending, [] => [component pending]
  | pending, c :: path =>
    if c = chr '/' then component pending :: componentsFrom [] path
    else componentsFrom (pending ++ [c]) path

def components (path : Bytes) : List (Component Bytes) := componentsFrom [] path

/-- Where a path leads from the working directory of the server. -/
def resolvePath (path : Bytes) : Place Bytes := Place.start.walk (components path)

theorem componentsFrom_append (pending first second : Bytes) :
    componentsFrom pending (first ++ chr '/' :: second) =
      componentsFrom pending first ++ components second := by
  induction first generalizing pending with
  | nil => simp [componentsFrom, components]
  | cons c first ih =>
      rw [List.cons_append, componentsFrom, componentsFrom, ih, ih]
      split <;> rfl

theorem resolvePath_append (first second : Bytes) :
    resolvePath (first ++ ascii "/" ++ second) =
      (resolvePath first).walk (components second) := by
  have split : first ++ ascii "/" ++ second = first ++ chr '/' :: second := by
    rw [List.append_assoc]
    rfl
  rw [resolvePath, split, components, componentsFrom_append, Place.walk_append]
  rfl

/-- The directory `'.' + home + '/'`. -/
def homeDirectory (home : Bytes) : Place Bytes := resolvePath (ascii "." ++ home ++ ascii "/")

theorem homeDirectory_eq (home : Bytes) : homeDirectory home = resolvePath (ascii "." ++ home) := by
  have walked := resolvePath_append (ascii "." ++ home) []
  rw [List.append_nil] at walked
  exact walked

/-- A name below a home that does not climb. -/
theorem strictlyBelow_home (home : Bytes) {dest : Bytes}
    (descends : Place.Descends (components dest)) :
    (homeDirectory home).StrictlyBelow
      (resolvePath (ascii "." ++ home ++ ascii "/" ++ dest)) := by
  rw [homeDirectory_eq, resolvePath_append]
  exact Place.walk_of_descends descends _

/-! ## Workers, tables and files together -/

/-- The tables and files, and what each worker keeps. -/
structure System : Type where
  world : World
  workers : Nat → Worker

/-- A request handled by one worker, in the state it had before. -/
structure Served : Type 1 where
  index : Nat
  worker : Worker
  handled : Handled

/-- Some worker handles a request, its calls answered by the world as it is. -/
def serves (t : Transport) (beyond : Bytes) (system : System) (served : Served)
    (system' : System) : Prop :=
  served.worker = system.workers served.index ∧
    Run (World.Leads beyond) unguarded system.world served.handled.trace system'.world ∧
    ((∃ worker' err', Runs (serverResponder t served.worker served.handled.request
          served.handled.err) served.handled.trace (.ok (worker', err')) ∧
        system'.workers = Function.update system.workers served.index worker') ∨
      ∃ e, Runs (serverResponder t served.worker served.handled.request
          served.handled.err) served.handled.trace (.error e) ∧
        system'.workers = system.workers)

/-- The users of the shipped database, no files yet, and workers without a session. -/
def System.start : System where
  world :=
    { users := [⟨1, ascii "root", ascii "root", ascii "/fs/", 1⟩,
        ⟨2, ascii "mgoffan", ascii "hola", ascii "/fs/mgoffan", 0⟩]
      lastUserId := 6
      files := []
      folders := [ascii "./fs/mgoffan"]
      disk := [] }
  workers := fun _ => .start

/-- The path a call opens. -/
def openedPath : ServerEvent → Option Bytes
  | ⟨.rawDataFromFile path, _⟩ => some path
  | ⟨.fileFromRawData path _ _, _⟩ => some path
  | _ => none

/-- Every file the request opened lies strictly below the home of its user. -/
def Confined (served : Served) : Prop :=
  ∀ event ∈ served.handled.trace, ∀ path, openedPath event = some path →
    ∃ session, served.worker.user = some session ∧
      (homeDirectory session.home.bytes).StrictlyBelow (resolvePath path)

/-! ## What the tables keep -/

/-- The homes in the table of users. -/
def World.homes (world : World) : List Bytes := world.users.map UserRow.home

/-- Files below `other` match the pattern made of `mine` only if `other` lies inside. -/
def Apart (mine other : Bytes) : Prop :=
  ∀ rest, like (mine ++ ascii "%") (other ++ ascii "/" ++ rest) = true →
    (homeDirectory mine).Within (homeDirectory other)

/-- The row names a file below one of the homes, under its alias. -/
def RowBelow (homes : List Bytes) (row : FileRow) : Prop :=
  ∃ home ∈ homes, row.path = home ++ ascii "/" ++ row.fileAlias ∧
    Place.Descends (components row.fileAlias) ∧ chr '\n' ∉ row.path

/-- The invariant of the tables. -/
structure Tidy (world : World) : Prop where
  rows : ∀ row ∈ world.files, RowBelow world.homes row
  apart : ∀ mine ∈ world.homes, ∀ other ∈ world.homes, Apart mine other
  tokens : ∀ home ∈ world.homes, OneToken home

/-- A session's home is one of the table's. -/
def SessionHome (world : World) (worker : Worker) : Prop :=
  ∀ session, worker.user = some session → session.home.bytes ∈ world.homes

/-- The home a call enters into `users`. -/
def newHome : ServerEvent → Option Bytes
  | ⟨.newUserInDb user, _⟩ => some (ascii "/fs/" ++ user.username.bytes)
  | _ => none

/-- A home that may be entered: one token, and apart from every other home. -/
def FreeHome (world : World) (home : Bytes) : Prop :=
  OneToken home ∧ ∀ other ∈ world.homes, Apart home other ∧ Apart other home

/-- The statement of a call is intact, and what it enters keeps the tables tidy. -/
structure EventTame (world : World) (event : ServerEvent) : Prop where
  intact : ∀ call ∈ sqlCall event, call.Intact
  rows : ∀ row ∈ insertedRow event, RowBelow world.homes row
  home : ∀ home ∈ newHome event, FreeHome world home

variable {beyond : Bytes} {world world' : World} {event : ServerEvent}

theorem Apart.refl (home : Bytes) : Apart home home := fun _ _ => .refl _

theorem EventTame.of_intact (intact : ∀ call ∈ sqlCall event, call.Intact)
    (noRow : insertedRow event = none) (noHome : newHome event = none) :
    EventTame world event :=
  ⟨intact, by simp [noRow], by simp [noHome]⟩

theorem EventTame.of_quiet (noCall : sqlCall event = none) (noRow : insertedRow event = none)
    (noHome : newHome event = none) : EventTame world event :=
  .of_intact (by simp [noCall]) noRow noHome

theorem EventTame.of_isSend (sends : isSend event = true) : EventTame world event := by
  obtain ⟨call, answer⟩ := event
  cases call <;> first
    | exact .of_quiet rfl rfl rfl
    | cases sends

theorem RowBelow.mono {homes homes' : List Bytes} {row : FileRow} (more : homes ⊆ homes')
    (below : RowBelow homes row) : RowBelow homes' row := by
  obtain ⟨home, member, path⟩ := below
  exact ⟨home, more member, path⟩

theorem regular_of_tame (tame : EventTame world event)
    (leads : world.Leads beyond event world') : world.Regular beyond world' event := by
  rcases leads with regular | ⟨call, behind, garbled, _⟩
  · exact regular
  · exact absurd (tame.intact call behind) garbled

/-- A regular call leaves the world or has its effect. -/
theorem same_or_after (regular : world.Regular beyond world' event) :
    world' = world ∨ world' = world.after beyond event := by
  obtain ⟨call, answer⟩ := event
  cases call with
  | askForFileToDb | userIdentificationInDb | userInDb => exact .inl regular.1
  | createUserFolder username =>
      cases answer with
      | true => exact .inl regular
      | false => exact regular
  | insertAliasInDb | newUserInDb | updatePassInDb | rawDataFromFile | fileFromRawData | sendInt
  | sendDouble | sendString | sendData => exact regular

theorem homes_after (event : ServerEvent) :
    (world.after beyond event).homes = world.homes ++ (newHome event).toList := by
  obtain ⟨call, answer⟩ := event
  cases call with
  | updatePassInDb user newPass =>
      simp only [World.homes, World.after, newHome, List.map_map, Option.toList_none,
        List.append_nil]
      refine List.map_congr_left fun row _ => ?_
      simp only [Function.comp_apply]
      split <;> rfl
  | _ => simp [World.homes, World.after, newHome]

/-- One tame call keeps the tables tidy. -/
theorem Tidy.step (tidy : Tidy world) (tame : EventTame world event)
    (leads : world.Leads beyond event world') :
    Tidy world' ∧ (world'.homes = world.homes ∨
      world'.homes = world.homes ++ (newHome event).toList) := by
  rcases same_or_after (regular_of_tame tame leads) with rfl | rfl
  · exact ⟨tidy, .inl rfl⟩
  refine ⟨⟨?_, ?_, ?_⟩, .inr (homes_after event)⟩
  · intro row member
    rw [homes_after]
    rw [files_after, List.mem_append, Option.mem_toList] at member
    rcases member with old | inserted
    · exact (tidy.rows row old).mono (List.subset_append_left _ _)
    · exact (tame.rows row inserted).mono (List.subset_append_left _ _)
  · intro mine first other second
    rw [homes_after, List.mem_append, Option.mem_toList] at first second
    rcases first with first | first <;> rcases second with second | second
    · exact tidy.apart mine first other second
    · exact ((tame.home other second).2 mine first).2
    · exact ((tame.home mine first).2 other second).1
    · obtain rfl : mine = other := Option.mem_unique first second
      exact .refl mine
  · intro home member
    rw [homes_after, List.mem_append, Option.mem_toList] at member
    rcases member with old | entered
    · exact tidy.tokens home old
    · exact (tame.home home entered).1

/-- No two different homes are entered. -/
def OneHome (trace : List ServerEvent) : Prop :=
  ∀ home ∈ trace.filterMap newHome, ∀ other ∈ trace.filterMap newHome, home = other

/-- A home that may be entered may be entered again. -/
theorem FreeHome.again {home : Bytes} (free : FreeHome world home)
    (homes : world'.homes = world.homes ++ [home]) : FreeHome world' home := by
  refine ⟨free.1, fun other member => ?_⟩
  rw [homes, List.mem_append, List.mem_singleton] at member
  rcases member with before | rfl
  · exact free.2 other before
  · exact ⟨.refl _, .refl _⟩

/-- A trace of tame calls that enters one home keeps the tables tidy. -/
theorem Tidy.run {trace : List ServerEvent} (tidy : Tidy world)
    (run : Run (World.Leads beyond) unguarded world trace world')
    (tame : ∀ event ∈ trace, EventTame world event) (one : OneHome trace) :
    Tidy world' ∧ world.homes ⊆ world'.homes := by
  induction trace generalizing world with
  | nil =>
      obtain rfl := run_nil.mp run
      exact ⟨tidy, List.Subset.refl _⟩
  | cons event trace ih =>
      obtain ⟨middle, -, leads, others⟩ := run_cons.mp run
      obtain ⟨kept, homes⟩ := tidy.step (tame event List.mem_cons_self) leads
      have grows : world.homes ⊆ middle.homes := by
        rcases homes with same | more
        · rw [same]
          exact List.Subset.refl _
        · rw [more]
          exact List.subset_append_left _ _
      have later : ∀ other ∈ trace, EventTame middle other := by
        intro other member
        obtain ⟨intact, rows, home⟩ := tame other (.tail _ member)
        refine ⟨intact, fun row inserted => (rows row inserted).mono grows, ?_⟩
        intro entered enters
        have free := home entered enters
        rcases homes with same | more
        · rwa [FreeHome, same]
        cases first : newHome event with
        | none =>
            rw [first, Option.toList_none, List.append_nil] at more
            rwa [FreeHome, more]
        | some early =>
            -- what came before it is the same home
            obtain rfl : early = entered := one early
              (List.mem_filterMap.mpr ⟨event, List.mem_cons_self, first⟩) entered
              (List.mem_filterMap.mpr ⟨other, .tail _ member, enters⟩)
            rw [first, Option.toList_some] at more
            exact free.again more
      have rest : OneHome trace := by
        intro home member other member'
        obtain ⟨event, inside, enters⟩ := List.mem_filterMap.mp member
        obtain ⟨event', inside', enters'⟩ := List.mem_filterMap.mp member'
        exact one home (List.mem_filterMap.mpr ⟨event, .tail _ inside, enters⟩) other
          (List.mem_filterMap.mpr ⟨event', .tail _ inside', enters'⟩)
      obtain ⟨final, more⟩ := ih kept others later rest
      exact ⟨final, List.Subset.trans grows more⟩

/-! ## One request -/

/-- The conditions on a request in the state it meets: its statements are intact, a
posted alias does not climb, and a new user's home is one token and apart from every
other home. -/
def Tame (world : World) (worker : Worker) : Request → Prop
  | .get path => ∀ session ∈ worker.user, (SqlCall.askForFileToDb path session.home).Intact
  | .post _ dest _ => ∀ session ∈ worker.user,
    (SqlCall.askForFileToDb dest session.home).Intact ∧
      (SqlCall.insertAliasInDb dest session.home).Intact ∧
        Place.Descends (components dest.bytes) ∧ chr '\n' ∉ dest.bytes
  | .login username password => worker.user = none →
    (SqlCall.userIdentificationInDb username password).Intact
  | .newUser user => ∀ session ∈ worker.user, session.isAdmin ≠ 0 →
    (SqlCall.userInDb user.username).Intact ∧ (SqlCall.newUserInDb user).Intact ∧
      FreeHome world (ascii "/fs/" ++ user.username.bytes)
  | .changePass pass => ∀ session ∈ worker.user,
    (SqlCall.updatePassInDb session.id pass).Intact
  | _ => True

variable {t : Transport} {worker : Worker} {request : Request} {err : CommError}
  {trace : List ServerEvent} {result : Except Fault (Worker × CommError)}

/-- Every call of the trace is tame, and one home is entered at most. -/
def TraceTame (world : World) (trace : List ServerEvent) : Prop :=
  (∀ event ∈ trace, EventTame world event) ∧ OneHome trace

theorem OneHome.of_none (none : ∀ event ∈ trace, newHome event = none) : OneHome trace := by
  intro home member
  rw [List.filterMap_eq_nil_iff.mpr none] at member
  cases member

theorem TraceTame.of_isSend (sends : ∀ event ∈ trace, isSend event = true) :
    TraceTame world trace := by
  refine ⟨fun event member => .of_isSend (sends event member), .of_none fun event member => ?_⟩
  have send := sends event member
  obtain ⟨call, answer⟩ := event
  cases call <;> first | rfl | cases send

theorem EventTame.reply {data : Bytes} {size : Nat} : EventTame world (reply data size) :=
  .of_isSend rfl

/-- The calls of a tame request are tame. -/
theorem traceTame_of_tame (tidy : Tidy world) (home : SessionHome world worker)
    (tame : Tame world worker request)
    (runs : Runs (serverResponder t worker request err) trace result) :
    TraceTame world trace := by
  obtain ⟨user, closed⟩ := worker
  cases user with
  | none =>
      cases request with
      | get path | post data dest size | newUser newUser | changePass pass | logout =>
          obtain ⟨rfl, -⟩ := refused_of_notLogged rfl runs trivial
          exact .of_isSend (by simp [notLogged, IpcFtp.reply, isSend])
      | int i | double d | string str | close | other kind =>
          exact .of_isSend (runs_sessionless runs trivial).1
      | login username password =>
          have ident {answer : Option FsUser} :
              EventTame world ⟨.userIdentificationInDb username password, answer⟩ :=
            .of_intact (by rintro call ⟨⟩; exact tame rfl) rfl rfl
          obtain ⟨inner, ran, rfl⟩ := runs_map.mp runs
          rcases runs_processLoginCmd ran with
            ⟨current, given, _, _⟩ | ⟨_, ⟨rfl, rfl⟩ | ⟨filled, rfl, rfl⟩⟩
          · cases given
          · exact ⟨by simp [ident, EventTame.reply], .of_none (by simp [newHome, IpcFtp.reply])⟩
          · exact ⟨by simp [ident, EventTame.reply], .of_none (by simp [newHome, IpcFtp.reply])⟩
  | some session =>
      have mine := home session rfl
      cases request with
      | get path =>
          have ask {answer : Option CString} :
              EventTame world ⟨.askForFileToDb path session, answer⟩ :=
            .of_intact (by rintro call ⟨⟩; exact tame session rfl) rfl rfl
          have open_ {path : Bytes} {answer : Option Bytes} :
              EventTame world ⟨.rawDataFromFile path, answer⟩ := .of_quiet rfl rfl rfl
          obtain ⟨inner, ran, rfl⟩ := runs_map.mp runs
          rcases runs_processGetCmd ran with
            ⟨rfl, rfl⟩ | ⟨row, ⟨rfl, rfl⟩ | ⟨contents, rfl, rfl⟩⟩
          all_goals
            exact ⟨by simp [ask, open_, EventTame.reply], .of_none (by simp [newHome, IpcFtp.reply])⟩
      | post data dest size =>
          obtain ⟨asks, inserts, descends, oneLine⟩ := tame session rfl
          have ask {answer : Option CString} :
              EventTame world ⟨.askForFileToDb dest session, answer⟩ :=
            .of_intact (by rintro call ⟨⟩; exact asks) rfl rfl
          have insert {answer : Int} :
              EventTame world ⟨.insertAliasInDb dest session, answer⟩ := by
            refine ⟨by rintro call ⟨⟩; exact inserts, ?_, by rintro entered ⟨⟩⟩
            intro row given
            cases given
            refine ⟨_, mine, rfl, descends, ?_⟩
            have token : chr '\n' ∉ session.home.bytes := fun inside =>
              ((tidy.tokens _ mine).2 _ inside).1 rfl
            simp only [aliasRow, List.mem_append, not_or]
            exact ⟨⟨token, by decide⟩, oneLine⟩
          have write {path block : Bytes} {answer : Int} :
              EventTame world ⟨.fileFromRawData path block size, answer⟩ :=
            .of_quiet rfl rfl rfl
          obtain ⟨inner, ran, rfl⟩ := runs_map.mp runs
          rcases runs_processPostCmd ran with ⟨row, rfl, rfl⟩ |
            ⟨inserted, ⟨e, _, rfl, rfl⟩ | ⟨block, written, _, rfl, rfl⟩⟩
          all_goals
            exact ⟨by simp [ask, insert, write, EventTame.reply],
              .of_none (by simp [newHome, IpcFtp.reply])⟩
      | newUser newUser =>
          obtain ⟨inner, ran, rfl⟩ := runs_map.mp runs
          rcases runs_processNewUserCmd ran with
            ⟨_, rfl, rfl⟩ | ⟨admin, found⟩
          · exact .of_isSend (by simp [IpcFtp.reply, isSend])
          obtain ⟨looks, inserts, free⟩ := tame session rfl admin
          have look {answer : Bool} : EventTame world ⟨.userInDb newUser.username, answer⟩ :=
            .of_intact (by rintro call ⟨⟩; exact looks) rfl rfl
          have make {answer : Bool} : EventTame world ⟨.createUserFolder newUser.username, answer⟩ :=
            .of_quiet rfl rfl rfl
          have insert {answer : Int} : EventTame world ⟨.newUserInDb newUser, answer⟩ := by
            refine ⟨by rintro call ⟨⟩; exact inserts, by rintro row ⟨⟩, ?_⟩
            intro entered given
            cases given
            exact free
          rcases found with ⟨rfl, rfl⟩ | ⟨inChild, inserted, rfl, rfl⟩
          · exact ⟨by simp [look, EventTame.reply], .of_none (by simp [newHome, IpcFtp.reply])⟩
          · constructor
            · intro event member
              rcases mem_newUserCalls member with rfl | rfl | ⟨_, rfl⟩ | rfl
              · exact look
              · exact make
              · exact insert
              · exact .reply
            · have only : ∀ home ∈ (newUserCalls newUser inChild inserted).filterMap newHome,
                  home = ascii "/fs/" ++ newUser.username.bytes := by
                intro home member
                obtain ⟨event, inside, enters⟩ := List.mem_filterMap.mp member
                rcases mem_newUserCalls inside with rfl | rfl | ⟨_, rfl⟩ | rfl <;> cases enters
                rfl
              exact fun home member other member' =>
                (only home member).trans (only other member').symm
      | changePass pass =>
          have update : EventTame world ⟨.updatePassInDb session pass, ()⟩ :=
            .of_intact (by rintro call ⟨⟩; exact tame session rfl) rfl rfl
          obtain ⟨inner, ran, rfl⟩ := runs_map.mp runs
          obtain ⟨rfl, rfl⟩ := runs_processChangePassCmd ran
          exact ⟨by simp [update, EventTame.reply], .of_none (by simp [newHome, IpcFtp.reply])⟩
      | login username password =>
          obtain ⟨inner, ran, rfl⟩ := runs_map.mp runs
          rcases runs_processLoginCmd ran with ⟨current, _, rfl, rfl⟩ | ⟨out, _⟩
          · exact .of_isSend (by simp [IpcFtp.reply, isSend])
          · cases out
      | logout =>
          obtain ⟨inner, ran, rfl⟩ := runs_map.mp runs
          obtain ⟨rfl, rfl⟩ := runs_processLogoutCmd ran
          exact .of_isSend (by simp [IpcFtp.reply, isSend])
      | int i | double d | string str | close | other kind =>
          exact .of_isSend (runs_sessionless runs trivial).1

/-- The files a tame request opens lie below the home it is made for. -/
theorem confined_of_tame (tidy : Tidy world) (home : SessionHome world worker)
    (tame : Tame world worker request)
    (runs : Runs (serverResponder t worker request err) trace result)
    (answered : Run (World.Leads beyond) unguarded world trace world') :
    ∀ event ∈ trace, ∀ path, openedPath event = some path →
      ∃ session, worker.user = some session ∧
        (homeDirectory session.home.bytes).StrictlyBelow (resolvePath path) := by
  intro event member path opened
  have touches : touchesFiles event = true := by
    obtain ⟨call, answer⟩ := event
    cases call <;> first | rfl | cases opened
  obtain ⟨session, logged, kind⟩ := get_or_post_of_touchesFiles runs member touches
  refine ⟨session, logged, ?_⟩
  have mine := home session logged
  rcases kind with ⟨asked, rfl⟩ | ⟨data, dest, size, rfl⟩
  · obtain ⟨inner, ran, rfl⟩ := runs_map.mp runs
    rw [logged] at ran
    -- the first call is the select, and its answer is the path that is opened
    have first : ∃ answer rest row, trace = ⟨.askForFileToDb asked session, answer⟩ :: rest ∧
        answer = some row ∧ path = ascii "." ++ row.bytes := by
      rcases runs_processGetCmd ran with
        ⟨rfl, rfl⟩ | ⟨row, ⟨rfl, rfl⟩ | ⟨contents, rfl, rfl⟩⟩
      · have none : ∀ event ∈ [(⟨.askForFileToDb asked session, none⟩ : ServerEvent),
            reply (ascii "FILE IS NOT IN DB") 17], openedPath event = none := by
          simp [openedPath, reply]
        rw [none event member] at opened
        cases opened
      · refine ⟨_, _, row, rfl, rfl, ?_⟩
        simp only [List.mem_cons, List.not_mem_nil, or_false] at member
        rcases member with rfl | rfl <;> cases opened
        rfl
      · refine ⟨_, _, row, rfl, rfl, ?_⟩
        simp only [List.mem_cons, List.not_mem_nil, or_false] at member
        rcases member with rfl | rfl | rfl <;> cases opened
        rfl
    obtain ⟨answer, rest, row, rfl, rfl, rfl⟩ := first
    obtain ⟨middle, -, leads, -⟩ := run_cons.mp answered
    rcases leads with ⟨-, found⟩ | ⟨call, behind, garbled, -⟩
    · obtain ⟨stored, matched, read⟩ := found row rfl
      rw [World.matching, List.mem_filter, decide_eq_true_eq] at matched
      obtain ⟨inTable, name, pattern⟩ := matched
      obtain ⟨owner, known, shape, descends, oneLine⟩ := tidy.rows stored inTable
      have whole : row.bytes = stored.path := by
        rw [read, firstLine, List.takeWhile_eq_self_iff]
        intro c inside
        simpa using ne_of_mem_of_not_mem inside oneLine
      rw [shape] at pattern
      have inside := tidy.apart _ mine _ known stored.fileAlias pattern
      rw [whole, shape]
      have below := strictlyBelow_home owner descends
      simp only [← List.append_assoc] at below ⊢
      exact inside.trans_strictlyBelow below
    · cases behind
      exact absurd (tame session logged) garbled
  · obtain ⟨-, -, descends, -⟩ := tame session logged
    obtain ⟨inner, ran, rfl⟩ := runs_map.mp runs
    rw [logged] at ran
    have path : path = ascii "." ++ session.home.bytes ++ ascii "/" ++ dest.bytes := by
      rcases runs_processPostCmd ran with ⟨row, rfl, rfl⟩ |
        ⟨inserted, ⟨e, _, rfl, rfl⟩ | ⟨block, written, _, rfl, rfl⟩⟩
      all_goals simp only [List.mem_cons, List.not_mem_nil, or_false] at member
      · rcases member with rfl | rfl <;> cases opened
      · rcases member with rfl | rfl <;> cases opened
      · rcases member with rfl | rfl | rfl | rfl <;> cases opened
        rfl
    rw [path]
    exact strictlyBelow_home _ descends

/-- The session a request leaves has its home in the table. -/
theorem sessionHome_of_tame {worker' : Worker} {err' : CommError} (tidy : Tidy world)
    (home : SessionHome world worker) (tame : Tame world worker request)
    (runs : Runs (serverResponder t worker request err) trace (.ok (worker', err')))
    (answered : Run (World.Leads beyond) unguarded world trace world') :
    SessionHome world worker' := by
  intro session' logged'
  cases logged : worker.user with
  | some session =>
      obtain ⟨rfl, -⟩ := keeps_of_logged logged runs logged'
      exact home _ logged
  | none =>
      obtain ⟨username, password, rfl, rfl⟩ :=
        (out_of_notLogged logged runs).2 worker' err' session' rfl logged'
      obtain ⟨middle, -, leads, -⟩ := run_cons.mp answered
      rcases leads with ⟨-, found⟩ | ⟨call, behind, garbled, -⟩
      · obtain ⟨-, row, member, -, -, filled⟩ := found session' rfl
        have known : row.home ∈ world.homes := List.mem_map_of_mem member
        rw [(filled (tidy.tokens _ known)).1]
        exact known
      · cases behind
        exact absurd (tame logged) garbled

/-! ## All requests of all workers -/

/-- The invariant of the whole system. -/
structure System.Tidy (system : System) : Prop where
  world : IpcFtp.Tidy system.world
  homes : ∀ index, SessionHome system.world (system.workers index)

/-- The condition on a request of some worker. -/
def tameRequest (system : System) (served : Served) : Prop :=
  Tame system.world (system.workers served.index) served.handled.request

theorem System.Tidy.serves {system system' : System} {served : Served} (tidy : system.Tidy)
    (tame : tameRequest system served) (taken : serves t beyond system served system') :
    Confined served ∧ system'.Tidy := by
  obtain ⟨same, answered, outcome⟩ := taken
  have home := tidy.homes served.index
  rw [← same] at home
  rw [tameRequest, ← same] at tame
  have kept {result : Except Fault (Worker × CommError)}
      (runs : Runs (serverResponder t served.worker served.handled.request
        served.handled.err) served.handled.trace result) :
      Confined served ∧ IpcFtp.Tidy system'.world ∧
        system.world.homes ⊆ system'.world.homes := by
    obtain ⟨calls, one⟩ := traceTame_of_tame tidy.world home tame runs
    exact ⟨confined_of_tame tidy.world home tame runs answered,
      tidy.world.run answered calls one⟩
  rcases outcome with ⟨worker', err', runs, workers⟩ | ⟨e, runs, workers⟩
  · obtain ⟨confined, world, grows⟩ := kept runs
    refine ⟨confined, world, fun index session logged => grows ?_⟩
    rw [workers, Function.update_apply] at logged
    split at logged
    · exact sessionHome_of_tame tidy.world home tame runs answered session logged
    · exact tidy.homes index session logged
  · obtain ⟨confined, world, grows⟩ := kept runs
    refine ⟨confined, world, fun index session logged => grows ?_⟩
    rw [workers] at logged
    exact tidy.homes index session logged

theorem System.tidy_start : System.start.Tidy := by
  refine ⟨⟨nofun, ?_, by decide +kernel⟩, nofun⟩
  have homes : System.start.world.homes = [ascii "/fs/", ascii "/fs/mgoffan"] := rfl
  rw [homes]
  simp only [List.forall_mem_cons, List.not_mem_nil, false_imp_iff, implies_true, and_true]
  refine ⟨⟨.refl _, ?_⟩, ?_, .refl _⟩
  · intro rest matches_
    decide
  · intro rest matches_
    exact absurd matches_ (by
      simp [like, ascii, characters_cons, patternCompare, sameCharacter, lowerCharacter, chr])

/-- The tables are tidy and every file opened so far was where it may be. -/
def SoFarConfined (requests : List Served) (system : System) : Prop :=
  system.Tidy ∧ ∀ served ∈ requests, Confined served

/-- In a run whose requests are all tame, every file the server opens for a user lies
strictly below that user's home. -/
theorem opens_below_home {system : System} {requests : List Served}
    (run : Run (serves t beyond) tameRequest .start requests system) :
    ∀ served ∈ requests, Confined served := by
  have soFar : SoFarConfined requests system := by
    refine Run.history run ⟨System.tidy_start, nofun⟩ ?_
    intro past before after served ⟨tidy, confined⟩ tame taken
    obtain ⟨here, still⟩ := tidy.serves tame taken
    refine ⟨still, fun other member => ?_⟩
    rcases List.mem_append.mp member with earlier | last
    · exact confined other earlier
    · rw [List.mem_singleton.mp last]
      exact here
  exact soFar.2

/-- User `mgoffan` of the shipped database. -/
def mgoffan : FsUser := ⟨⟨ascii "mgoffan", by decide⟩, ⟨ascii "/fs/mgoffan", by decide⟩, 0, 2⟩

def loginMgoffan : Served :=
  ⟨0, .start, ⟨.login mgoffan.name ⟨ascii "hola", by decide⟩, ⟨0, []⟩,
    [⟨.userIdentificationInDb mgoffan.name ⟨ascii "hola", by decide⟩, some mgoffan⟩,
      reply (ascii "Logged in successfully") 22]⟩⟩

def System.loggedIn : System :=
  ⟨System.start.world, Function.update (fun _ => .start) 0 ⟨some mgoffan, false⟩⟩

theorem serves_loginMgoffan : serves .fifo [] .start loginMgoffan .loggedIn := by
  refine ⟨rfl, ?_, .inl ⟨⟨some mgoffan, false⟩, _, .call (.call (.ret _)), rfl⟩⟩
  refine run_cons.mpr ⟨_, trivial, .inl ⟨rfl, ?_⟩, .one trivial (.inl (.inl rfl))⟩
  intro filled given
  cases given
  exact ⟨rfl, ⟨2, ascii "mgoffan", ascii "hola", ascii "/fs/mgoffan", 0⟩, by decide, rfl, rfl,
    fun _ => ⟨rfl, rfl, rfl⟩⟩

/-- `mgoffan` posts one byte to `dest`. -/
def postMgoffan (dest : CString) : Served :=
  ⟨0, ⟨some mgoffan, false⟩, ⟨.post ⟨ascii "065", nulFree_065⟩ dest 1, ⟨0, []⟩,
    [⟨.askForFileToDb dest mgoffan, none⟩, ⟨.insertAliasInDb dest mgoffan, 0⟩,
      ⟨.fileFromRawData (ascii "." ++ mgoffan.home.bytes ++ ascii "/" ++ dest.bytes) [65] 1, 0⟩,
      reply (ascii "File OK") 7]⟩⟩

theorem serves_postMgoffan (dest : CString) :
    ∃ system, serves .fifo [] .loggedIn (postMgoffan dest) system := by
  let path := ascii "." ++ mgoffan.home.bytes ++ ascii "/" ++ dest.bytes
  let inserted := System.loggedIn.world.after [] ⟨.insertAliasInDb dest mgoffan, 0⟩
  let written := inserted.after [] ⟨.fileFromRawData path [65] 1, 0⟩
  have answered : Run (World.Leads []) unguarded System.loggedIn.world
      (postMgoffan dest).handled.trace written :=
    run_cons.mpr ⟨_, trivial, .inl ⟨rfl, by simp⟩, run_cons.mpr ⟨inserted, trivial,
      .inl (.inr rfl), run_cons.mpr ⟨written, trivial, .inl (.inr rfl),
        .one trivial (.inl (.inl rfl))⟩⟩⟩
  exact ⟨⟨written, _⟩, rfl, answered,
    .inl ⟨⟨some mgoffan, false⟩, _, .call (.call (.call (.call (.ret _)))), rfl⟩⟩

/-- With the alias `x` both requests are tame, and the file lies below `./fs/mgoffan/`. -/
theorem opens_below_home_postX :
    Confined (postMgoffan ⟨ascii "x", by decide⟩) := by
  obtain ⟨system, posted⟩ := serves_postMgoffan ⟨ascii "x", by decide⟩
  have login : tameRequest .start loginMgoffan := fun _ => by decide +kernel
  have post : tameRequest .loggedIn (postMgoffan ⟨ascii "x", by decide⟩) := by
    intro session given
    cases given
    decide +kernel
  have run : Run (serves .fifo []) tameRequest .start
      [loginMgoffan, postMgoffan ⟨ascii "x", by decide⟩] system :=
    run_cons.mpr ⟨_, login, serves_loginMgoffan, .one post posted⟩
  exact opens_below_home run _ (.tail _ List.mem_cons_self)

/-- The alias `../ann/x` has intact statements, and its file lies in the home of `ann`. -/
theorem post_leaves_home :
    let dest : CString := ⟨ascii "../ann/x", by decide⟩
    (∃ system, Run (serves .fifo []) unguarded .start [loginMgoffan, postMgoffan dest] system) ∧
      (SqlCall.insertAliasInDb dest mgoffan.home).Intact ∧
      resolvePath (ascii "./fs/mgoffan/../ann/x") = ⟨0, [ascii "fs", ascii "ann", ascii "x"]⟩ ∧
      ¬ Confined (postMgoffan dest) := by
  intro dest
  obtain ⟨system, posted⟩ := serves_postMgoffan dest
  refine ⟨⟨system, run_cons.mpr ⟨_, trivial, serves_loginMgoffan, .one trivial posted⟩⟩,
    by decide +kernel, by decide +kernel, fun confined => ?_⟩
  obtain ⟨session, logged, below⟩ := confined _ (.tail _ (.tail _ List.mem_cons_self)) _ rfl
  cases logged
  exact absurd below (by decide +kernel)

end IpcFtp
