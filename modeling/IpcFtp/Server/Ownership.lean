import IpcFtp.Server.Database
import IpcFtp.Sqlite.ResultSet

/-!
# Whose file is found

`ask_for_file_to_db` looks for a row with the given alias whose path begins with the user's
home, and takes the first.  The home is a `LIKE` pattern, so the rows of a user whose home
begins like it are found as well, whether as `/fs/ab` begins like `/fs/a` or through a wildcard
of the name.
-/

namespace IpcFtp

open Lib

/-- `EXPECTED_RESPONSE`. -/
def expectedResponse : Int := 0

/-- Calls of `insert_alias_in_db` in order: the alias and the session's user. -/
abbrev Posts : Type := List (CString × FsUser)

/-- The database behind them, with empty tables before. -/
def Posts.world (posts : Posts) : World :=
  World.afterAll [] ⟨[], 0, [], [], []⟩
    (posts.map fun post => ⟨⟨.insertAliasInDb post.1 post.2, expectedResponse⟩, true⟩)

/-- The path of a row as `callback` is given it. -/
def FileRow.pathText (row : FileRow) : CString := ⟨cstr row.path, nulFree_cstr row.path⟩

/-- `ask_for_file_to_db`, where its statement reads as its template: null or a path. -/
def askForFileToDb (world : World) (fileAlias : CString) (user : FsUser) :
    Outcome Byte Fault (Option Bytes) :=
  let rows := (world.matching fileAlias user.home).map fun row => [some row.pathText]
  (Reader.run none readResponse (responseBytes rows).1).andThen fun ans rest =>
    .done (if ans = endStr then none else some ans) rest

section Promise

variable (posts : Posts) (fileAlias : CString) (user : FsUser)

/-- The user has posted a file under the alias.  Users are told apart by their homes. -/
def Posted : Prop := ∃ poster, (fileAlias, poster) ∈ posts ∧ poster.home = user.home

/-- The statements of the posts and of the question read as their templates. -/
structure AllIntact : Prop where
  posts : ∀ post ∈ posts, (SqlCall.insertAliasInDb post.1 post.2.home).Intact
  asks : (SqlCall.askForFileToDb fileAlias user.home).Intact

/-- What may come of the question: another statement may come to anything. -/
def MayAnswer (outcome : Outcome Byte Fault (Option Bytes)) : Prop :=
  AllIntact posts fileAlias user → outcome = askForFileToDb posts.world fileAlias user

/-- A path is returned exactly for what the user has posted, and it is the user's. -/
def AnswersOwn : Prop :=
  ∀ outcome, MayAnswer posts fileAlias user outcome →
    ∃ answer rest, outcome = .done answer rest ∧
      ((∃ path, answer = some path) ↔ Posted posts fileAlias user) ∧
      ∀ path, answer = some path → path = (aliasRow fileAlias user).path

/-- A post the question finds. -/
def Finds (post : CString × FsUser) : Prop :=
  post.1 = fileAlias ∧
    like (user.home.bytes ++ ascii "%") (aliasRow post.1 post.2).path = true

/-- The lines that the rows of the question make. -/
def foundLines : List Bytes :=
  (posts.world.matching fileAlias user.home).flatMap fun row => parts (chr '\n') row.path

/-- A row of the poster says what the user has posted: it is the user's own row, or a line end
in the poster's home cuts it to what has to be answered. -/
def SpeaksFor (poster : FsUser) : Prop :=
  poster.home = user.home ∨
  (Posted posts fileAlias user ∧ ∃ rest,
    poster.home.bytes = (aliasRow fileAlias user).path ++ chr '\n' :: rest) ∨
  (¬ Posted posts fileAlias user ∧ ∃ rest, poster.home.bytes = endStr ++ chr '\n' :: rest)

/-- Rows of other users that the question finds stand behind one that speaks for the user. -/
structure Undisturbed : Prop where
  intact : AllIntact posts fileAlias user
  first : ∀ front poster back, posts = front ++ (fileAlias, poster) :: back →
    (∀ post ∈ front, ¬ Finds fileAlias user post) → Finds fileAlias user (fileAlias, poster) →
    SpeaksFor posts fileAlias user poster
  oneLine : Posted posts fileAlias user → chr '\n' ∉ (aliasRow fileAlias user).path
  /-- a cell is left for `END` -/
  few : ((foundLines posts fileAlias user).takeWhile (· ≠ endStr)).length < maxColumns

end Promise

section Table

variable {posts : Posts} {fileAlias : CString} {user : FsUser}

theorem files_world : posts.world.files = posts.map fun post => aliasRow post.1 post.2 := by
  have grows (world : World) : (World.afterAll [] world
      (posts.map fun post => ⟨⟨.insertAliasInDb post.1 post.2, expectedResponse⟩, true⟩)).files =
      world.files ++ posts.map fun post => aliasRow post.1 post.2 := by
    induction posts generalizing world with
    | nil => exact (List.append_nil _).symm
    | cons post posts ih =>
        rw [List.map_cons, World.afterAll, List.foldl_cons]
        apply (ih _).trans
        rw [World.step, if_pos rfl, files_after, List.append_assoc]
        rfl
  exact (grows _).trans (List.nil_append _)

instance (post : CString × FsUser) : Decidable (Finds fileAlias user post) :=
  inferInstanceAs (Decidable (_ ∧ _))

theorem matching_world :
    posts.world.matching fileAlias user.home =
      (posts.filter (Finds fileAlias user)).map fun post => aliasRow post.1 post.2 := by
  unfold World.matching
  rw [files_world, List.filter_map]
  congr 1
  apply List.filter_congr
  intro post _
  exact decide_eq_decide.mpr (and_congr_left' CString.bytes_inj)

/-- A user's own post is found. -/
theorem finds_own {poster : FsUser} (own : poster.home = user.home) :
    Finds fileAlias user (fileAlias, poster) := by
  refine ⟨rfl, ?_⟩
  unfold aliasRow
  rw [own]
  exact like_below _ _

theorem aliasRow_path (fileAlias : CString) (poster : FsUser) :
    (aliasRow fileAlias poster).path = poster.home.bytes ++ chr '/' :: fileAlias.bytes :=
  List.append_assoc _ _ _

theorem nulFree_aliasRow (fileAlias : CString) (poster : FsUser) :
    0 ∉ (aliasRow fileAlias poster).path := by
  rw [aliasRow_path, List.mem_append, List.mem_cons, not_or, not_or]
  exact ⟨poster.home.nulFree, by decide, fileAlias.nulFree⟩

theorem rowLine_pathText (fileAlias : CString) (poster : FsUser) :
    rowLine [some (aliasRow fileAlias poster).pathText] = (aliasRow fileAlias poster).path := by
  have text : columnText (some (aliasRow fileAlias poster).pathText) =
      (aliasRow fileAlias poster).path := cstr_of_nulFree (nulFree_aliasRow fileAlias poster)
  rw [rowLine_cons, joinedColumns_cons, if_pos rfl, text]
  split_ifs with blank
  · rw [blank]
    rfl
  · rfl

/-- The path of a post that is executed fits a line. -/
theorem length_path_le {poster : FsUser}
    (intact : (SqlCall.insertAliasInDb fileAlias poster.home).Intact) :
    (aliasRow fileAlias poster).path.length ≤ 101 := by
  have whole := intact.2.1.1
  simp only [SqlCall.statement, SqlCall.template, render, Segment.text, hole,
    List.flatMap_cons, List.flatMap_nil, List.length_append, List.length_cons] at whole
  simp only [aliasRow, List.length_append]
  omega

/-- The rows of the posts that are found. -/
def Posts.rows (posts : Posts) : List ResultRow :=
  posts.map fun post => [some (aliasRow post.1 post.2).pathText]

theorem resultLines_rows : resultLines posts.rows =
    posts.flatMap fun post => parts (chr '\n') (aliasRow post.1 post.2).path := by
  unfold resultLines Posts.rows
  rw [List.flatMap_map]
  congr 1
  exact funext fun post => congrArg _ (rowLine_pathText post.1 post.2)

variable (posts) in
theorem fits_rows (intact : ∀ post ∈ posts, (SqlCall.insertAliasInDb post.1 post.2.home).Intact) :
    ∀ row ∈ posts.rows, (rowLine row).length + 1 < maxQueryResponseLength := by
  unfold Posts.rows
  rw [List.forall_mem_map]
  intro post member
  have short := length_path_le (intact post member)
  rw [rowLine_pathText, maxQueryResponseLength]
  omega

theorem foundLines_eq : foundLines posts fileAlias user =
    resultLines (Posts.rows (posts.filter (Finds fileAlias user))) := by
  rw [resultLines_rows]
  unfold foundLines
  rw [matching_world, List.flatMap_map]

/-- What is answered is the first line of the rows that are found. -/
theorem askForFileToDb_eq (intact : AllIntact posts fileAlias user) :
    ∃ rest, askForFileToDb posts.world fileAlias user =
      if ((foundLines posts fileAlias user).takeWhile (· ≠ endStr)).length < maxColumns then
        .done (if (foundLines posts fileAlias user).headD endStr = endStr then none
          else some ((foundLines posts fileAlias user).headD endStr)) rest
      else .fault .outOfBounds := by
  obtain ⟨rest, -, run⟩ := run_resultLines
    (fits_rows (posts.filter (Finds fileAlias user)) fun post member =>
      intact.posts post (List.mem_filter.mp member).1)
  refine ⟨rest, ?_⟩
  unfold askForFileToDb
  rw [matching_world, List.map_map, foundLines_eq]
  change (Reader.run none readResponse
    (responseBytes (Posts.rows (posts.filter (Finds fileAlias user)))).1).andThen _ = _
  rw [run, apply_ite (Outcome.andThen · _)]
  rfl

/-- A path begins with a line if it is the line, or the home goes on behind the line's end. -/
theorem firstLine_eq_iff {poster : FsUser} {line : Bytes} (free : chr '\n' ∉ line)
    (apart : chr '/' ∈ line → chr '\n' ∉ fileAlias.bytes) :
    (aliasRow fileAlias poster).path.takeWhile (· ≠ chr '\n') = line ↔
      (aliasRow fileAlias poster).path = line ∨
        ∃ rest, poster.home.bytes = line ++ chr '\n' :: rest := by
  rw [takeWhile_eq_iff, and_iff_right free]
  apply or_congr_right
  constructor
  · intro given
    obtain ⟨rest, split⟩ := given
    rw [aliasRow_path] at split
    exact eq_append_of_joined (by decide) apart split
  · intro given
    obtain ⟨rest, home⟩ := given
    exact ⟨rest ++ chr '/' :: fileAlias.bytes, by
      rw [aliasRow_path, home, List.append_assoc, List.cons_append]⟩

theorem aliasRow_path_inj {poster : FsUser} :
    (aliasRow fileAlias poster).path = (aliasRow fileAlias user).path ↔
      poster.home = user.home := by
  rw [aliasRow_path, aliasRow_path]
  constructor
  · intro same
    exact CString.bytes_inj.mp (List.append_cancel_right same)
  · intro same
    rw [same]

theorem aliasRow_path_ne_endStr (poster : FsUser) : (aliasRow fileAlias poster).path ≠ endStr := by
  intro same
  have slash : chr '/' ∈ endStr := by
    rw [← same, aliasRow_path]
    simp
  exact absurd slash (by decide)

/-- The first row's first line is the user's path. -/
theorem firstLine_eq_own_iff {poster : FsUser} :
    (aliasRow fileAlias poster).path.takeWhile (· ≠ chr '\n') = (aliasRow fileAlias user).path ↔
      chr '\n' ∉ (aliasRow fileAlias user).path ∧ (poster.home = user.home ∨
        ∃ rest, poster.home.bytes = (aliasRow fileAlias user).path ++ chr '\n' :: rest) := by
  by_cases free : chr '\n' ∈ (aliasRow fileAlias user).path
  · exact iff_of_false (fun same => ((takeWhile_eq_iff _ _).mp same).1 free)
      fun given => given.1 free
  · have alias_ : chr '\n' ∉ fileAlias.bytes := by
      intro inside
      rw [aliasRow_path] at free
      exact free (List.mem_append_right _ (.tail _ inside))
    rw [firstLine_eq_iff free fun _ => alias_, aliasRow_path_inj, and_iff_right free]

/-- The first row's first line is `END`. -/
theorem firstLine_eq_endStr_iff {poster : FsUser} :
    (aliasRow fileAlias poster).path.takeWhile (· ≠ chr '\n') = endStr ↔
      ∃ rest, poster.home.bytes = endStr ++ chr '\n' :: rest := by
  rw [firstLine_eq_iff (by decide) fun slash => absurd slash (by decide),
    or_iff_right (aliasRow_path_ne_endStr poster)]

/-- The first post that is found, where one is. -/
theorem filter_finds_eq_cons_iff {first : CString × FsUser} :
    (∃ others, posts.filter (Finds fileAlias user) = first :: others) ↔
      ∃ front back, posts = front ++ first :: back ∧
        (∀ post ∈ front, ¬ Finds fileAlias user post) ∧ Finds fileAlias user first := by
  constructor
  · intro given
    obtain ⟨others, found⟩ := given
    obtain ⟨front, back, split, earlier, finds, -⟩ := List.filter_eq_cons_iff.mp found
    exact ⟨front, back, split, fun post member is => earlier post member (decide_eq_true is),
      of_decide_eq_true finds⟩
  · intro given
    obtain ⟨front, back, split, earlier, finds⟩ := given
    exact ⟨_, List.filter_eq_cons_iff.mpr ⟨front, back, split,
      fun post member is => earlier post member (of_decide_eq_true is), decide_eq_true finds, rfl⟩⟩

theorem headD_foundLines_cons {first : CString × FsUser} {others : Posts}
    (found : posts.filter (Finds fileAlias user) = first :: others) :
    (foundLines posts fileAlias user).headD endStr =
      (aliasRow first.1 first.2).path.takeWhile (· ≠ chr '\n') := by
  rw [foundLines_eq, found, headD_resultLines (show _ ∈ (Posts.rows (first :: others)).head? from rfl),
    rowLine_pathText]

/-- What has to be answered: the user's path, or that there is none. -/
def MustBegin (posts : Posts) (fileAlias : CString) (user : FsUser) (line : Bytes) : Prop :=
  (Posted posts fileAlias user → line = (aliasRow fileAlias user).path) ∧
    (¬ Posted posts fileAlias user → line = endStr)

/-- The first line of the rows is what has to be answered exactly if the first row speaks for
the user. -/
theorem mustBegin_cons_iff {poster : FsUser} {others : Posts}
    (found : posts.filter (Finds fileAlias user) = (fileAlias, poster) :: others) :
    MustBegin posts fileAlias user ((foundLines posts fileAlias user).headD endStr) ↔
      SpeaksFor posts fileAlias user poster ∧
        (Posted posts fileAlias user → chr '\n' ∉ (aliasRow fileAlias user).path) := by
  have member : (fileAlias, poster) ∈ posts :=
    (List.mem_filter.mp (found ▸ List.mem_cons_self)).1
  rw [headD_foundLines_cons found]
  unfold MustBegin SpeaksFor
  by_cases posted : Posted posts fileAlias user
  · simp only [posted, forall_const, not_true_eq_false, false_implies, and_true, true_and,
      false_and, or_false]
    rw [firstLine_eq_own_iff, and_comm]
  · have foreign : poster.home ≠ user.home := fun own => posted ⟨poster, member, own⟩
    simp only [posted, foreign, false_implies, not_false_eq_true, forall_const, true_and,
      false_and, false_or, and_true]
    exact firstLine_eq_endStr_iff

theorem mustBegin_iff :
    MustBegin posts fileAlias user ((foundLines posts fileAlias user).headD endStr) ↔
      (∀ front poster back, posts = front ++ (fileAlias, poster) :: back →
        (∀ post ∈ front, ¬ Finds fileAlias user post) →
        Finds fileAlias user (fileAlias, poster) → SpeaksFor posts fileAlias user poster) ∧
      (Posted posts fileAlias user → chr '\n' ∉ (aliasRow fileAlias user).path) := by
  cases found : posts.filter (Finds fileAlias user) with
  | nil =>
      have nothing (poster : FsUser) (member : (fileAlias, poster) ∈ posts) :
          ¬ Finds fileAlias user (fileAlias, poster) := by
        intro finds
        have inside : (fileAlias, poster) ∈ posts.filter (Finds fileAlias user) :=
          List.mem_filter.mpr ⟨member, decide_eq_true finds⟩
        rw [found] at inside
        cases inside
      have free : ¬ Posted posts fileAlias user := by
        intro given
        obtain ⟨poster, member, own⟩ := given
        exact nothing poster member (finds_own own)
      have line : (foundLines posts fileAlias user).headD endStr = endStr := by
        rw [foundLines_eq, found]
        rfl
      refine iff_of_true ⟨fun posted => absurd posted free, fun _ => line⟩ ⟨?_, ?_⟩
      · rintro front poster back rfl - finds
        exact absurd finds (nothing poster (by simp))
      · exact fun posted => absurd posted free
  | cons first others =>
      obtain ⟨front, back, split, earlier, finds⟩ := filter_finds_eq_cons_iff.mp ⟨others, found⟩
      obtain ⟨fileAlias', poster⟩ := first
      obtain rfl : fileAlias' = fileAlias := finds.1
      rw [mustBegin_cons_iff found]
      apply and_congr_left'
      constructor
      · intro speaks front' poster' back' split' earlier' finds'
        obtain ⟨others', found'⟩ := filter_finds_eq_cons_iff.mpr ⟨front', back', split', earlier',
          finds'⟩
        rw [found] at found'
        obtain ⟨same, -⟩ := List.cons.inj found'
        exact (Prod.mk.inj same).2 ▸ speaks
      · intro all
        exact all front poster back split earlier finds

/-- The answer that `MustBegin` asks for. -/
theorem MustBegin.answer {line : Bytes} (must : MustBegin posts fileAlias user line) :
    ((∃ path, (if line = endStr then none else some line) = some path) ↔
      Posted posts fileAlias user) ∧
    ∀ path, (if line = endStr then none else some line) = some path →
      path = (aliasRow fileAlias user).path := by
  by_cases posted : Posted posts fileAlias user
  · obtain rfl := must.1 posted
    rw [if_neg (aliasRow_path_ne_endStr user)]
    exact ⟨iff_of_true ⟨_, rfl⟩ posted, fun path same => (Option.some.inj same).symm⟩
  · obtain rfl := must.2 posted
    rw [if_pos rfl]
    exact ⟨iff_of_false nofun posted, nofun⟩

theorem MustBegin.of_answer {line : Bytes}
    (exactly : (∃ path, (if line = endStr then none else some line) = some path) ↔
      Posted posts fileAlias user)
    (own : ∀ path, (if line = endStr then none else some line) = some path →
      path = (aliasRow fileAlias user).path) : MustBegin posts fileAlias user line := by
  constructor
  · intro posted
    obtain ⟨path, answer⟩ := exactly.mpr posted
    have is := own path answer
    split_ifs at answer
    exact (Option.some.inj answer).trans is
  · intro free
    by_contra other
    rw [if_neg other] at exactly
    exact free (exactly.mp ⟨line, rfl⟩)

/-- Behind a row of the user's own, other users' rows do no harm. -/
theorem Undisturbed.of_own_first (intact : AllIntact ((fileAlias, user) :: posts) fileAlias user)
    (oneLine : chr '\n' ∉ (aliasRow fileAlias user).path)
    (few : ((foundLines ((fileAlias, user) :: posts) fileAlias user).takeWhile
      (· ≠ endStr)).length < maxColumns) :
    Undisturbed ((fileAlias, user) :: posts) fileAlias user := by
  refine ⟨intact, ?_, fun _ => oneLine, few⟩
  intro front poster back split earlier _
  cases front with
  | nil =>
      obtain ⟨-, rfl⟩ := Prod.mk.inj (List.cons.inj split).1
      exact .inl rfl
  | cons first front =>
      obtain ⟨rfl, -⟩ := List.cons.inj split
      exact absurd (finds_own rfl) (earlier _ List.mem_cons_self)

theorem AnswersOwn.intact (answersOwn : AnswersOwn posts fileAlias user) :
    AllIntact posts fileAlias user := by
  by_contra broken
  obtain ⟨answer, rest, done, -⟩ := answersOwn .blocked fun intact => absurd intact broken
  cases done

theorem AnswersOwn.undisturbed (answersOwn : AnswersOwn posts fileAlias user) :
    Undisturbed posts fileAlias user := by
  have intact := answersOwn.intact
  obtain ⟨rest, run⟩ := askForFileToDb_eq intact
  obtain ⟨answer, rest', done, exactly, own⟩ := answersOwn _ fun _ => rfl
  rw [run] at done
  by_cases few :
      ((foundLines posts fileAlias user).takeWhile (· ≠ endStr)).length < maxColumns
  · rw [if_pos few] at done
    obtain ⟨rfl, -⟩ := Outcome.done.inj done
    obtain ⟨first, oneLine⟩ := mustBegin_iff.mp (.of_answer exactly own)
    exact ⟨intact, first, oneLine, few⟩
  · rw [if_neg few] at done
    cases done

/-- What a user that nobody disturbs is answered. -/
theorem Undisturbed.answer (undisturbed : Undisturbed posts fileAlias user) :
    ∃ line rest, MustBegin posts fileAlias user line ∧
      askForFileToDb posts.world fileAlias user =
        .done (if line = endStr then none else some line) rest := by
  obtain ⟨rest, run⟩ := askForFileToDb_eq undisturbed.intact
  exact ⟨_, rest, mustBegin_iff.mpr ⟨undisturbed.first, undisturbed.oneLine⟩,
    run.trans (if_pos undisturbed.few)⟩

end Table

/-- A question is answered with exactly the user's own posts, whatever others have posted, if
and only if the statements are intact and the rows of other users that it finds stand behind
one that speaks for the user.  Tables that leave it so are told apart by the user's own rows
only. -/
theorem answersOwn_iff (fileAlias : CString) (user : FsUser) :
    (∀ posts : Posts, AnswersOwn posts fileAlias user ↔ Undisturbed posts fileAlias user) ∧
    ∀ posts others : Posts,
      Undisturbed posts fileAlias user → Undisturbed others fileAlias user →
      (Posted posts fileAlias user ↔ Posted others fileAlias user) →
      ∃ answer rest rest', askForFileToDb posts.world fileAlias user = .done answer rest ∧
        askForFileToDb others.world fileAlias user = .done answer rest' := by
  constructor
  · intro posts
    refine ⟨AnswersOwn.undisturbed, fun undisturbed outcome mayAnswer => ?_⟩
    rw [mayAnswer undisturbed.intact]
    obtain ⟨line, rest, must, done⟩ := undisturbed.answer
    exact ⟨_, rest, done, must.answer⟩
  · intro posts others undisturbed undisturbed' same
    obtain ⟨line, rest, must, done⟩ := undisturbed.answer
    obtain ⟨line', rest', must', done'⟩ := undisturbed'.answer
    have sameLine : line = line' := by
      by_cases posted : Posted posts fileAlias user
      · rw [must.1 posted, must'.1 (same.mp posted)]
      · rw [must.2 posted, must'.2 fun posted' => posted (same.mpr posted')]
    exact ⟨_, rest, rest', done, sameLine ▸ done'⟩

/-- A user whose home begins like another's, behind the other's own row. -/
theorem answersOwn_behind_own :
    let a : FsUser := ⟨⟨ascii "a", by decide⟩, ⟨ascii "/fs/a", by decide⟩, 0, 2⟩
    let ab : FsUser := ⟨⟨ascii "ab", by decide⟩, ⟨ascii "/fs/ab", by decide⟩, 0, 3⟩
    let x : CString := ⟨ascii "x", by decide⟩
    AnswersOwn [(x, a), (x, ab)] x a ∧
      ∃ answer rest rest',
        askForFileToDb (Posts.world [(x, a), (x, ab)]) x a = .done answer rest ∧
        askForFileToDb (Posts.world [(x, a)]) x a = .done answer rest' := by
  intro a ab x
  have undisturbed : Undisturbed [(x, a), (x, ab)] x a :=
    .of_own_first ⟨by decide +kernel, by decide +kernel⟩ (by decide) (by decide +kernel)
  have undisturbed' : Undisturbed [(x, a)] x a :=
    .of_own_first ⟨by decide +kernel, by decide +kernel⟩ (by decide) (by decide +kernel)
  refine ⟨((answersOwn_iff x a).1 _).mpr undisturbed,
    (answersOwn_iff x a).2 _ _ undisturbed undisturbed' ?_⟩
  exact iff_of_true ⟨a, by simp, rfl⟩ ⟨a, by simp, rfl⟩

/-- The home `/fs/a` is the beginning of `/fs/ab`: the file of one user answers the other. -/
theorem neighbour_is_found :
    let a : FsUser := ⟨⟨ascii "a", by decide⟩, ⟨ascii "/fs/a", by decide⟩, 0, 2⟩
    let ab : FsUser := ⟨⟨ascii "ab", by decide⟩, ⟨ascii "/fs/ab", by decide⟩, 0, 3⟩
    let x : CString := ⟨ascii "x", by decide⟩
    AllIntact [(x, ab)] x a ∧
      askForFileToDb (Posts.world [(x, ab)]) x a = .done (some (ascii "/fs/ab/x")) [] ∧
      askForFileToDb (Posts.world []) x a = .done none [] ∧ ¬ AnswersOwn [(x, ab)] x a := by
  intro a ab x
  have found : askForFileToDb (Posts.world [(x, ab)]) x a = .done (some (ascii "/fs/ab/x")) [] := by
    decide +kernel
  refine ⟨⟨by decide +kernel, by decide +kernel⟩, found, by decide +kernel, fun answersOwn => ?_⟩
  obtain ⟨answer, rest, done, exactly, -⟩ := answersOwn _ fun _ => rfl
  rw [found] at done
  cases done
  obtain ⟨poster, member, same⟩ := exactly.mp ⟨_, rfl⟩
  obtain ⟨-, rfl⟩ := Prod.mk.inj (List.mem_singleton.mp member)
  exact absurd same (by decide)

end IpcFtp
