import IpcFtp.Server.Dialogue

/-!
# The table of threads

`load_configuration` of `server/server_config.c`, and the table of threads in the main loop of a
worker: its numbers are `size_t`, it doubles when it is almost full, and the limit is compared
behind the doubling.
-/

namespace IpcFtp

/-! ## Configuration -/

/-- `server_config_t`. -/
structure ServerConfig : Type where
  serverName : CString
  port : Int
  dbFile : CString
  minThreads : Nat
  maxThreads : Nat

/-- `load_configuration` of a file with these contents, and nothing if it could not be opened; a
file that is not JSON has no members. -/
def loadConfiguration (json : JsonC) (contents : Option Bytes) : Except Fault (Option ServerConfig) :=
  match contents with
  | none => return none
  | some contents => do
    let object := (json.parse (cstr contents)).getD []
    let serverName ← json.string object (ascii "server_name")
    let dbFile ← json.string object (ascii "db")
    return some {
      serverName
      port := json.int object (ascii "port") % 2 ^ 32
      dbFile
      minThreads := JsonC.intToSize (json.int object (ascii "min_threads"))
      maxThreads := JsonC.intToSize (json.int object (ascii "max_threads")) }

/-- The number a configuration file has under a name. -/
def configured (json : JsonC) (contents name : Bytes) : Int :=
  json.int ((json.parse (cstr contents)).getD []) name

theorem threads_of_loadConfiguration {json : JsonC} {contents : Bytes} {config : ServerConfig}
    (loads : loadConfiguration json (some contents) = .ok (some config)) :
    config.minThreads = JsonC.intToSize (configured json contents (ascii "min_threads")) ∧
      config.maxThreads = JsonC.intToSize (configured json contents (ascii "max_threads")) := by
  obtain ⟨serverName, -, loads⟩ := bind_eq_ok.mp loads
  obtain ⟨dbFile, -, loads⟩ := bind_eq_ok.mp loads
  cases loads
  exact ⟨rfl, rfl⟩

/-! ## The table -/

/-- The cells of `malloc(num_threads * sizeof(pthread_t*))`, if it succeeds. -/
def cellsOf (numThreads : Nat) : Nat := numThreads * 8 % 2 ^ 64 / 8

structure ThreadTable : Type where
  currentThread : Nat
  numThreads : Nat
  cells : Nat
  deriving DecidableEq

/-- The table of a worker that has just been forked. -/
def ThreadTable.start (minThreads : Nat) : ThreadTable := ⟨0, minThreads, cellsOf minThreads⟩

/-- `current_thread == num_threads - 1`. -/
def ThreadTable.AlmostFull (table : ThreadTable) : Prop :=
  table.currentThread = (table.numThreads + (2 ^ 64 - 1)) % 2 ^ 64

instance (table : ThreadTable) : Decidable table.AlmostFull := inferInstanceAs (Decidable (_ = _))

/-- `num_threads *= 2`. -/
def ThreadTable.doubled (table : ThreadTable) : Nat := table.numThreads * 2 % 2 ^ 64

/-- A request: the table in which its thread is entered at `current_thread`, or nothing if it is
refused. -/
def ThreadTable.takeIn (maxThreads : Nat) (table : ThreadTable) : Option ThreadTable :=
  if table.AlmostFull then
    if table.doubled > maxThreads then none
    else some ⟨table.currentThread, table.doubled, cellsOf table.doubled⟩
  else some table

/-- `current_thread++`. -/
def ThreadTable.entered (table : ThreadTable) : ThreadTable :=
  { table with currentThread := (table.currentThread + 1) % 2 ^ 64 }

/-- The table behind as many requests, if all of them have been accepted. -/
def ThreadTable.after (maxThreads : Nat) (table : ThreadTable) : Nat → Option ThreadTable
  | 0 => some table
  | accepted + 1 => ((table.after maxThreads accepted).bind (takeIn maxThreads)).map entered

/-- Threads are entered in cells of the table, and a request is refused only behind `max_threads`
that were accepted. -/
structure ServesThreads (minThreads maxThreads : Nat) : Prop where
  inside : ∀ accepted table table', (ThreadTable.start minThreads).after maxThreads accepted = some table →
    table.takeIn maxThreads = some table' → table'.currentThread < table'.cells
  refusal : ∀ accepted table, (ThreadTable.start minThreads).after maxThreads accepted = some table →
    table.takeIn maxThreads = none → maxThreads ≤ accepted

section Table

variable {minThreads maxThreads accepted : Nat} {table table' : ThreadTable}

theorem cellsOf_lt (numThreads : Nat) : cellsOf numThreads < 2 ^ 61 := by
  unfold cellsOf
  omega

theorem cellsOf_of_small (small : minThreads < 2 ^ 61) : cellsOf minThreads = minThreads := by
  unfold cellsOf
  omega

theorem takeIn_eq_none :
    table.takeIn maxThreads = none ↔ table.AlmostFull ∧ maxThreads < table.doubled := by
  unfold ThreadTable.takeIn
  split_ifs with full refused
  · exact iff_of_true rfl ⟨full, refused⟩
  · exact iff_of_false (by simp) fun given => refused given.2
  · exact iff_of_false (by simp) fun given => full given.1

/-- What an accepted request does to the table. -/
theorem takeIn_cases (admits : table.takeIn maxThreads = some table') :
    (table.AlmostFull ∧ table.doubled ≤ maxThreads ∧
        table' = ⟨table.currentThread, table.doubled, cellsOf table.doubled⟩) ∨
      (¬ table.AlmostFull ∧ table' = table) := by
  unfold ThreadTable.takeIn at admits
  split_ifs at admits with full refused
  · exact .inl ⟨full, Nat.le_of_not_lt refused, (Option.some.inj admits).symm⟩
  · exact .inr ⟨full, (Option.some.inj admits).symm⟩

theorem takeIn_of_room (room : ¬ table.AlmostFull) : table.takeIn maxThreads = some table :=
  if_neg room

/-- As long as no number wraps around, the room is that of `roomFor`. -/
theorem takeIn_eq_roomFor (positive : 0 < table.numThreads) (small : table.numThreads < 2 ^ 63) :
    (table.takeIn maxThreads).map ThreadTable.numThreads =
      roomFor table.currentThread table.numThreads maxThreads := by
  have full : table.AlmostFull ↔ table.currentThread + 1 = table.numThreads := by
    unfold ThreadTable.AlmostFull
    omega
  have double : table.doubled = table.numThreads * 2 := by
    unfold ThreadTable.doubled
    omega
  unfold ThreadTable.takeIn roomFor
  simp only [full, double]
  split_ifs <;> rfl

theorem after_succ {n : Nat} : table.after maxThreads (n + 1) = some table' ↔
    ∃ before admitted, table.after maxThreads n = some before ∧
      before.takeIn maxThreads = some admitted ∧ table' = admitted.entered := by
  simp only [ThreadTable.after, Option.map_eq_some_iff, Option.bind_eq_some_iff]
  constructor
  · intro given
    obtain ⟨admitted, ⟨before, after, admits⟩, rfl⟩ := given
    exact ⟨before, admitted, after, admits, rfl⟩
  · intro given
    obtain ⟨before, admitted, after, admits, rfl⟩ := given
    exact ⟨admitted, ⟨before, after, admits⟩, rfl⟩

theorem currentThread_of_takeIn (admits : table.takeIn maxThreads = some table') :
    table'.currentThread = table.currentThread := by
  rcases takeIn_cases admits with ⟨-, -, rfl⟩ | ⟨-, rfl⟩ <;> rfl

/-- The index counts the requests. -/
theorem currentThread_of_after
    (after : (ThreadTable.start minThreads).after maxThreads accepted = some table) :
    table.currentThread = accepted % 2 ^ 64 := by
  induction accepted generalizing table with
  | zero =>
      cases after
      rfl
  | succ accepted ih =>
      obtain ⟨before, admitted, earlier, admits, rfl⟩ := after_succ.mp after
      simp only [ThreadTable.entered, currentThread_of_takeIn admits, ih earlier]
      omega

/-- The cells are those that were asked for. -/
theorem cells_of_after (after : (ThreadTable.start minThreads).after maxThreads accepted = some table) :
    table.cells = cellsOf table.numThreads := by
  induction accepted generalizing table with
  | zero =>
      cases after
      rfl
  | succ accepted ih =>
      obtain ⟨before, admitted, earlier, admits, rfl⟩ := after_succ.mp after
      rcases takeIn_cases admits with ⟨-, -, rfl⟩ | ⟨-, rfl⟩
      · rfl
      · have kept := ih earlier
        exact kept

/-- The front of the first table is filled without a test. -/
theorem after_of_room (small : minThreads < 2 ^ 64) (room : accepted < minThreads) :
    (ThreadTable.start minThreads).after maxThreads accepted =
      some ⟨accepted, minThreads, cellsOf minThreads⟩ := by
  induction accepted with
  | zero => rfl
  | succ accepted ih =>
      refine after_succ.mpr ⟨_, _, ih (by omega), takeIn_of_room ?_, ?_⟩
      · change ¬ accepted = (minThreads + (2 ^ 64 - 1)) % 2 ^ 64
        omega
      · simp only [ThreadTable.entered, ThreadTable.mk.injEq, and_self, and_true]
        omega

/-- Nobody is refused early. -/
theorem ServesThreads.after_ne_none (serves : ServesThreads minThreads maxThreads)
    (early : accepted ≤ maxThreads) :
    (ThreadTable.start minThreads).after maxThreads accepted ≠ none := by
  induction accepted with
  | zero => exact Option.some_ne_none _
  | succ accepted ih =>
      obtain ⟨table, after⟩ := Option.ne_none_iff_exists'.mp (ih (by omega))
      cases admits : table.takeIn maxThreads with
      | none =>
          have late := serves.refusal accepted table after admits
          omega
      | some admitted =>
          rw [after_succ.mpr ⟨table, admitted, after, admits, rfl⟩]
          exact Option.some_ne_none _

end Table

/-! ## Which configurations serve -/

section Configurations

variable {minThreads maxThreads accepted : Nat} {table : ThreadTable}

/-- A table that is larger than the limit is never doubled. -/
theorem servesThreads_of_lt (limit : maxThreads < minThreads) (small : minThreads < 2 ^ 31) :
    ServesThreads minThreads maxThreads := by
  have unchanged (accepted : Nat) (table : ThreadTable)
      (after : (ThreadTable.start minThreads).after maxThreads accepted = some table) :
      accepted < minThreads ∧ table = ⟨accepted, minThreads, minThreads⟩ := by
    induction accepted generalizing table with
    | zero =>
        cases after
        refine ⟨by omega, ?_⟩
        rw [ThreadTable.start, cellsOf_of_small (by omega)]
    | succ accepted ih =>
        obtain ⟨before, admitted, earlier, admits, rfl⟩ := after_succ.mp after
        obtain ⟨inside, rfl⟩ := ih before earlier
        rcases takeIn_cases admits with ⟨full, limited, -⟩ | ⟨room, rfl⟩
        · simp only [ThreadTable.doubled] at limited
          omega
        · simp only [ThreadTable.AlmostFull] at room
          refine ⟨by omega, ?_⟩
          rw [ThreadTable.entered]
          simp only [ThreadTable.mk.injEq, and_self, and_true]
          omega
  refine ⟨?_, ?_⟩
  · intro accepted table table' after admits
    obtain ⟨inside, rfl⟩ := unchanged accepted table after
    rcases takeIn_cases admits with ⟨full, limited, -⟩ | ⟨-, rfl⟩
    · simp only [ThreadTable.doubled] at limited
      omega
    · exact inside
  · intro accepted table after refused
    obtain ⟨inside, rfl⟩ := unchanged accepted table after
    obtain ⟨full, -⟩ := takeIn_eq_none.mp refused
    simp only [ThreadTable.AlmostFull] at full
    omega

/-- Doubling stays below the limit, so the table is full before it is reached. -/
theorem numThreads_of_after (positive : 0 < minThreads) (limit : minThreads ≤ maxThreads)
    (small : maxThreads < 2 ^ 31)
    (after : (ThreadTable.start minThreads).after maxThreads accepted = some table) :
    table.currentThread = accepted ∧ accepted < table.numThreads ∧ table.numThreads ≤ maxThreads := by
  induction accepted generalizing table with
  | zero =>
      cases after
      exact ⟨rfl, positive, limit⟩
  | succ accepted ih =>
      obtain ⟨before, admitted, earlier, admits, rfl⟩ := after_succ.mp after
      obtain ⟨index, inside, limited⟩ := ih earlier
      rcases takeIn_cases admits with ⟨full, doubled, rfl⟩ | ⟨room, rfl⟩
      · unfold ThreadTable.AlmostFull at full
        unfold ThreadTable.doubled at doubled
        simp only [ThreadTable.entered, ThreadTable.doubled]
        omega
      · unfold ThreadTable.AlmostFull at room
        simp only [ThreadTable.entered]
        omega

/-- A `size_t` made of an `int`. -/
theorem intToSize_cases {i : Int} (range : isInt i) :
    JsonC.intToSize i < 2 ^ 31 ∨
      (2 ^ 64 - 2 ^ 31 ≤ JsonC.intToSize i ∧ JsonC.intToSize i < 2 ^ 64) := by
  obtain ⟨low, high⟩ := range
  unfold JsonC.intToSize
  omega

/-- A table has less than 2^61 cells, so the thread behind as many is entered outside. -/
theorem ServesThreads.refuses_behind {n : Nat} (serves : ServesThreads minThreads maxThreads)
    (after : (ThreadTable.start minThreads).after maxThreads n = some table) (many : n = 2 ^ 61) :
    table.takeIn maxThreads = none := by
  by_contra accepts
  obtain ⟨admitted, admits⟩ := Option.ne_none_iff_exists'.mp accepts
  have inside := serves.inside n table admitted after admits
  have index := (currentThread_of_takeIn admits).trans (currentThread_of_after after)
  have cells : admitted.cells < 2 ^ 61 := by
    rcases takeIn_cases admits with ⟨-, -, rfl⟩ | ⟨-, rfl⟩
    · exact cellsOf_lt _
    · rw [cells_of_after after]
      exact cellsOf_lt _
  omega

theorem ServesThreads.limit_le (serves : ServesThreads minThreads maxThreads) :
    maxThreads ≤ 2 ^ 61 := by
  obtain ⟨n, many⟩ : ∃ n : Nat, n = 2 ^ 61 := ⟨_, rfl⟩
  by_contra limit
  have below : n ≤ maxThreads := by omega
  obtain ⟨table, after⟩ := Option.ne_none_iff_exists'.mp (serves.after_ne_none below)
  have late := serves.refusal n table after (serves.refuses_behind after many)
  omega

theorem ServesThreads.minThreads_le (serves : ServesThreads minThreads maxThreads)
    (small : minThreads < 2 ^ 64) : minThreads ≤ 2 ^ 61 + 1 := by
  obtain ⟨n, many⟩ : ∃ n : Nat, n = 2 ^ 61 := ⟨_, rfl⟩
  by_contra huge
  have after : (ThreadTable.start minThreads).after maxThreads n = _ :=
    after_of_room small (by omega)
  obtain ⟨full, -⟩ := takeIn_eq_none.mp (serves.refuses_behind after many)
  change n = (minThreads + (2 ^ 64 - 1)) % 2 ^ 64 at full
  omega

theorem ServesThreads.minThreads_pos (serves : ServesThreads minThreads maxThreads) :
    0 < minThreads := by
  by_contra none
  obtain rfl : minThreads = 0 := by omega
  have inside := serves.inside 0 _ (.start 0) rfl (takeIn_of_room (by decide))
  exact absurd inside (by decide)

/-- A worker keeps to its table and to the limit exactly if the table is larger than the limit from
the start. -/
theorem servesThreads_iff {json : JsonC} {contents : Bytes} {config : ServerConfig}
    (loads : loadConfiguration json (some contents) = .ok (some config))
    (least : isInt (configured json contents (ascii "min_threads")))
    (most : isInt (configured json contents (ascii "max_threads"))) :
    ServesThreads config.minThreads config.maxThreads ↔
      config.maxThreads < config.minThreads ∧ config.minThreads < 2 ^ 31 := by
  obtain ⟨minThreads, maxThreads⟩ := threads_of_loadConfiguration loads
  rw [minThreads, maxThreads]
  have least' := intToSize_cases least
  have most' := intToSize_cases most
  constructor
  · intro serves
    have limit := serves.limit_le
    have size := serves.minThreads_le (by omega)
    have positive := serves.minThreads_pos
    refine ⟨?_, by omega⟩
    by_contra below
    obtain ⟨table, after⟩ := Option.ne_none_iff_exists'.mp (serves.after_ne_none le_rfl)
    obtain ⟨-, inside, limited⟩ := numThreads_of_after positive (by omega) (by omega) after
    omega
  · intro given
    exact servesThreads_of_lt given.1 given.2

end Configurations

/-- A configuration file with these numbers. -/
def configurationFile (minThreads maxThreads : Int) : JsonObject :=
  [(ascii "server_name", literal "google" (by decide)), (ascii "port", .int 7978),
    (ascii "db", literal "./files.db" (by decide)), (ascii "min_threads", .int minThreads),
    (ascii "max_threads", .int maxThreads)]

theorem parse_configurationFile (minThreads maxThreads : Int)
    (nulFree : 0 ∉ printPlain (configurationFile minThreads maxThreads)) :
    (plainJson [configurationFile minThreads maxThreads]).parse
      (cstr (printPlain (configurationFile minThreads maxThreads))) =
        some (configurationFile minThreads maxThreads) := by
  rw [cstr_of_nulFree nulFree]
  simp only [plainJson, List.find?_cons, decide_true]

/-- A table of three threads, and a limit of two. -/
theorem servesThreads_three_two : ServesThreads 3 2 := by
  have parsed := parse_configurationFile 3 2 (by decide +kernel)
  let config : ServerConfig :=
    ⟨⟨ascii "google", by decide⟩, 7978, ⟨ascii "./files.db", by decide⟩, 3, 2⟩
  refine (@servesThreads_iff (plainJson [configurationFile 3 2]) (printPlain (configurationFile 3 2))
    config ?_ ?_ ?_).mpr ⟨by decide, by decide⟩
  · simp only [loadConfiguration, parsed, Option.getD_some]
    rfl
  · unfold configured
    rw [parsed]
    exact ⟨by decide, by decide⟩
  · unfold configured
    rw [parsed]
    exact ⟨by decide, by decide⟩

/-- With the numbers of the file that comes with the server the 80th request is refused. -/
theorem refuses_early :
    (∃ table, (ThreadTable.start 10).after 100 79 = some table ∧ table.takeIn 100 = none) ∧
      ¬ ServesThreads 10 100 := by
  have after : (ThreadTable.start 10).after 100 79 = some ⟨79, 80, 80⟩ := by decide +kernel
  have refused : ThreadTable.takeIn 100 ⟨79, 80, 80⟩ = none := by decide
  refine ⟨⟨_, after, refused⟩, ?_⟩
  intro serves
  exact absurd (serves.refusal 79 _ after refused) (by decide)

end IpcFtp
