import PushIT.AccountErasure

/-!
# What an erasure leaves

The rows that name a user are either deleted with the user or refused by a foreign key, so no
application of an erased user is left and no token of theirs is usable.  Devices and aliases are
listed before: each step keeps every device under its last user and accounts for every alias, by
the row that has it or by a call that is still owed, as long as nothing lands after the list.

## Main results

* `erasure_complete`: an erasure leaves nothing in every run that meets the conditions.
* `erasure_leaves_device`: an identification in flight leaves the device and its push token.
-/

namespace PushIT

open Relational Transition

namespace Erasure

/-! ### The requests of the console -/

/-- What a statement of a request of the console does. -/
inductive Moves (s : Erasure) (rid : ℕ) : Erasure → Prop
  /-- It writes nothing; a save that goes on is for the same row and the same owner. -/
  | writesNothing (object purpose attempts next)
    (hp : s.console.processes rid = some (.saving object purpose attempts))
    (hnext : ∀ p, next = some p → ∃ object' attempts', p = .saving object' purpose attempts' ∧
      object'.id = object.id ∧ object'.ownerId = object.ownerId) :
    Moves s rid { s with console := s.console.setProcess rid next }
  | creates (object attempts a changes)
    (hp : s.console.processes rid = some (.saving object .create attempts))
    (howner : s.hasUser object.ownerId = true)
    (ha : a.id = s.applications.seq + 1 ∧ a.ownerId = object.ownerId) :
    Moves s rid
      { s with
        console :=
          { s.console with
            applications := s.applications.put a
            processes := s.console.processes.set rid (some (.provisioning a.inboundEmailAlias ""))
            changes } }
  | regenerates (object old attempts a changes)
    (hp : s.console.processes rid = some (.saving object (.regenerateEmail old) attempts))
    (howner : s.hasUser object.ownerId = true) (hold : old ≠ "")
    (ha : a.id = object.id ∧ a.ownerId = object.ownerId) :
    Moves s rid
      { s with
        console :=
          { s.console with
            applications := s.applications.put a
            processes := s.console.processes.set rid
              (some (.provisioning a.inboundEmailAlias old))
            changes } }
  | patches (object attempts changes)
    (hp : s.console.processes rid = some (.saving object .patch attempts))
    (howner : s.hasUser object.ownerId = true) :
    Moves s rid
      { s with
        console :=
          { s.console with
            applications := s.applications.put object
            processes := s.console.processes.set rid none
            changes } }
  | updates (row a changes) (hrow : row ∈ s.applications.rows)
    (ha : a.id = row.id ∧ a.ownerId = row.ownerId ∧
      a.inboundEmailAlias = row.inboundEmailAlias)
    (hp : ∃ object columns attempts,
      s.console.processes rid = some (.saving object (.update columns) attempts)) :
    Moves s rid
      { s with
        console :=
          { s.console with
            applications := s.applications.put a
            processes := s.console.processes.set rid none
            changes } }
  | provisions (input alias_ old)
    (hp : s.console.processes rid = some (.provisioning alias_ old)) :
    Moves s rid (s.advanceConsole rid input (.provisioning alias_ old))
  | deprovisions (input alias_) (hp : s.console.processes rid = some (.deprovisioning alias_)) :
    Moves s rid (s.advanceConsole rid input (.deprovisioning alias_))
  | destroys (input object) (hp : s.console.processes rid = some (.deleting object))
    (hobject : object.inboundEmailAlias ≠ "") :
    Moves s rid (s.advanceConsole rid input (.deleting object))

variable {P : SignInPlatform} {s t : Erasure}

theorem refuseSave_steps {rid : ℕ} (input : ConsoleInput) {object : ConsoleApplication}
    {purpose : SavePurpose} {attempts : ℕ} (hwf : s.console.WellFormed)
    (hp : s.console.processes rid = some (.saving object purpose attempts)) :
    s.console.Steps (.advance rid input)
        (s.console.refuseSave rid input object purpose attempts) ∧
      s.Moves rid
        { s with console := s.console.refuseSave rid input object purpose attempts } := by
  have hready := hwf.processes rid _ hp
  have hfails : s.console.Steps (.advance rid input) (s.console.setProcess rid none) ∧
      s.Moves rid { s with console := s.console.setProcess rid none } :=
    ⟨.fails rid input object purpose attempts hp,
      .writesNothing object purpose attempts none hp (by simp)⟩
  unfold Console.refuseSave
  simp only [ConsoleApplication.inboundEmailAlias_fillBlanks]
  split
  · exact hfails
  · next hblank =>
    have hblank : object.inboundEmailAlias = "" := not_not.mp hblank
    match attempts with
    | 0 | 1 => exact hfails
    | k + 2 =>
      refine ⟨.retries rid input object purpose _ (k + 1) hp ?_,
        .writesNothing object purpose _ _ hp fun p hnext => ?_⟩
      · cases purpose with
        | create => exact (ConsoleApplication.inboundEmailAlias_fillBlanks _ _).trans hblank
        | regenerateEmail old =>
          exact ⟨ConsoleApplication.filled_fillBlanks _ _,
            (ConsoleApplication.inboundEmailAlias_fillBlanks _ _).trans hblank, hready.2.2⟩
        | patch => exact absurd hblank hready.inboundEmailAlias
        | update columns => exact absurd hblank hready.1.inboundEmailAlias
      · obtain rfl := Option.some.inj hnext
        exact ⟨_, _, rfl, ConsoleApplication.id_fillBlanks _ _,
          ConsoleApplication.ownerId_fillBlanks _ _⟩

theorem requests_advanceConsole (rid : ℕ) (input : ConsoleInput) (p : ConsoleProcess) :
    (s.advanceConsole rid input p).requests = s.requests := by
  cases p with
  | saving =>
    simp only [advanceConsole]
    split <;> rfl
  | provisioning | deprovisioning | deleting => rfl

theorem erasures_advanceConsole (rid : ℕ) (input : ConsoleInput) (p : ConsoleProcess) :
    (s.advanceConsole rid input p).erasures = s.erasures := by
  cases p with
  | saving =>
    simp only [advanceConsole]
    split <;> rfl
  | provisioning | deprovisioning | deleting => rfl

theorem copy_keeps {columns : Columns} (h : columns ≠ .all ∧ columns ≠ .inboundEmail)
    (object row : ConsoleApplication) : (columns.copy object row).id = row.id ∧
      (columns.copy object row).ownerId = row.ownerId ∧
        (columns.copy object row).inboundEmailAlias = row.inboundEmailAlias := by
  cases columns with
  | all => exact absurd rfl h.1
  | inboundEmail => exact absurd rfl h.2
  | none | appToken | revokedAt | enrolment | webhookSecret | isActive | logo =>
    exact ⟨rfl, rfl, rfl⟩

/-- Nothing else happens. -/
theorem advanceConsole_moves (hwf : s.console.WellFormed) {rid : ℕ} (input : ConsoleInput)
    {p : ConsoleProcess} (hp : s.console.processes rid = some p) :
    s.console.Steps (.advance rid input) (s.advanceConsole rid input p).console ∧
      s.Moves rid (s.advanceConsole rid input p) := by
  have hsteps : s.console.Steps (.advance rid input) (s.console.advance rid input p) :=
    Console.step_cases hwf (by simp [Console.step, hp])
  cases p with
  | provisioning alias_ old => exact ⟨hsteps, .provisions input alias_ old hp⟩
  | deprovisioning alias_ => exact ⟨hsteps, .deprovisions input alias_ hp⟩
  | deleting object =>
    exact ⟨hsteps, .destroys input object hp (hwf.processes rid _ hp).inboundEmailAlias⟩
  | saving object purpose attempts =>
    simp only [advanceConsole]
    split
    · next howner =>
      refine ⟨hsteps, ?_⟩
      generalize s.console.advance rid input (.saving object purpose attempts) = c at hsteps
      have hsame : ∀ {object' purpose' attempts'},
          s.console.processes rid = some (.saving object' purpose' attempts') →
            object' = object ∧ purpose' = purpose := by
        intro object' purpose' attempts' hp'
        obtain ⟨h₁, h₂, -⟩ := ConsoleProcess.saving.inj (Option.some.inj (hp'.symm.trans hp))
        exact ⟨h₁, h₂⟩
      cases hsteps with
      | fails _ _ object' purpose' attempts' hp' =>
        exact .writesNothing object' purpose' attempts' none hp' (by simp)
      | retries _ _ object' purpose' attempts' k hp' =>
        refine .writesNothing object' purpose' attempts' _ hp' fun p hnext => ?_
        obtain rfl := Option.some.inj hnext
        exact ⟨_, _, rfl, ConsoleApplication.id_fillBlanks _ _,
          ConsoleApplication.ownerId_fillBlanks _ _⟩
      | patches _ _ object' attempts' hp' =>
        obtain ⟨rfl, rfl⟩ := hsame hp'
        exact .patches object' attempts _ hp howner
      | updates _ _ object' columns attempts' row hp' _ hcolumns hrow =>
        exact .updates row _ _ (Table.get?_eq_some.mp hrow).1 (copy_keeps hcolumns object' row)
          ⟨object', columns, attempts', hp'⟩
      | creates _ _ object' attempts' a hp' ha =>
        obtain ⟨rfl, rfl⟩ := hsame hp'
        subst ha
        exact .creates object' attempts _ _ hp howner
          ⟨rfl, ConsoleApplication.ownerId_fillBlanks _ _⟩
      | regenerates _ _ object' old attempts' hp' _ hold =>
        obtain ⟨rfl, rfl⟩ := hsame hp'
        exact .regenerates object' old attempts _ _ hp howner hold ⟨rfl, rfl⟩
      | provisions _ _ _ _ hp' | deprovisions _ _ _ hp' | destroys _ _ _ hp' =>
        rw [hp] at hp'
        simp at hp'
    · obtain ⟨hsteps', hmoves⟩ := refuseSave_steps input hwf hp
      exact ⟨hsteps', hmoves⟩

/-! ### Rows and their users -/

/-- What a request has loaded is an application of its user; a new one has no key yet. -/
def Loaded (owner : ℕ → ℕ) (seq user : ℕ) : ConsoleProcess → Prop
  | .saving object .create _ => object.ownerId = user
  | .saving object _ _ | .deleting object =>
    object.ownerId = user ∧ owner object.id = user ∧ object.id ≤ seq
  | .provisioning _ _ | .deprovisioning _ => True

theorem Loaded.mono {owner owner' : ℕ → ℕ} {seq seq' user : ℕ} {p : ConsoleProcess}
    (h : Loaded owner seq user p) (hseq : seq ≤ seq') (howner : ∀ k ≤ seq, owner' k = owner k) :
    Loaded owner' seq' user p := by
  cases p with
  | saving object purpose attempts =>
    cases purpose with
    | create => exact h
    | patch | regenerateEmail | update =>
      obtain ⟨huser, hkey, hle⟩ := h
      exact ⟨huser, (howner _ hle).trans hkey, hle.trans hseq⟩
  | deleting object =>
    obtain ⟨huser, hkey, hle⟩ := h
    exact ⟨huser, (howner _ hle).trans hkey, hle.trans hseq⟩
  | provisioning | deprovisioning => exact True.intro

/-- The keys of applications have owners. -/
structure Held (owner : ℕ → ℕ) (s : Erasure) : Prop where
  rows : ∀ a ∈ s.applications.rows, owner a.id = a.ownerId
  loaded : ∀ rid p, s.console.processes rid = some p →
    Loaded owner s.applications.seq (s.requester rid) p

/-- Every row names a user of the table, and the erased users are not among these. -/
structure Sound (s : Erasure) : Prop where
  wellFormed : s.console.WellFormed
  applications : ∀ a ∈ s.applications.rows, s.hasUser a.ownerId = true
  devices : ∀ d ∈ s.devices.rows, ∀ user, d.userId = some user → s.hasUser user = true
  erased : ∀ user ∈ s.erased, s.hasUser user = false
  held : ∃ owner, s.Held owner

theorem begin_steps (hwf : s.console.WellFormed) {rid : ℕ} {b : Bool}
    (hcan : ((s.console.processes rid).isNone && b) = true) (now : Instant) (r : ConsoleRequest) :
    s.console.processes rid = none ∧
      s.console.Steps (.request rid now r) (s.console.begin rid now r) := by
  have hidle : s.console.processes rid = none :=
    Option.isNone_iff_eq_none.mp (Bool.and_eq_true_iff.mp hcan).1
  exact ⟨hidle, Console.step_cases hwf (by simp [Console.step, hidle])⟩

/-- The first statements of a request of the console load an application of its user. -/
theorem begin_loads {c : Console} {rid : ℕ} (hidle : c.processes rid = none) {owner : ℕ → ℕ}
    (hrows : ∀ a ∈ c.applications.rows, owner a.id = a.ownerId) (now : Instant)
    (r : ConsoleRequest) :
    ∃ next changes,
      c.begin rid now r = { c with processes := c.processes.set rid next, changes } ∧
        ∀ p, next = some p →
          p.owesNothing = true ∧ Loaded owner c.applications.seq r.owner p := by
  have hsame : { c with processes := c.processes.set rid none } = c := by
    rw [Pool.set_eq_self hidle]
  have hrefuses : ∃ next changes,
      c = { c with processes := c.processes.set rid next, changes } ∧
        ∀ p, next = some p →
          p.owesNothing = true ∧ Loaded owner c.applications.seq r.owner p :=
    ⟨none, c.changes, hsame.symm, by simp⟩
  cases r with
  | create user name description draw =>
    refine ⟨_, c.changes, rfl, fun p hp => ?_⟩
    obtain rfl := Option.some.inj hp
    exact ⟨rfl, rfl⟩
  | patch user id | regenerateEmail user id | regenerateToken user id | revoke user id
  | rotateEnrolmentCode user id | rotateWebhookSecret user id | setActive user id
  | setLogo user id | destroy user id =>
    simp only [Console.begin, Console.target, Option.bind_some]
    split
    · next a hload =>
      obtain ⟨hget, howner⟩ := Option.filter_eq_some_iff.mp hload
      have hrow := (Table.get?_eq_some.mp hget).1
      have huser : a.ownerId = user := by simpa using howner
      have hloaded : a.ownerId = user ∧ owner a.id = user ∧ a.id ≤ c.applications.seq :=
        ⟨huser, (hrows a hrow).trans huser, c.applications.bounded a hrow⟩
      first
        | (refine ⟨_, c.changes, rfl, fun p hp => ?_⟩
           obtain rfl := Option.some.inj hp
           exact ⟨rfl, hloaded⟩)
        | (simp only [Console.beginOn]
           split
           · exact ⟨none, _, by rw [Pool.set_eq_self hidle], by simp⟩
           · refine ⟨_, c.changes, rfl, fun p hp => ?_⟩
             obtain rfl := Option.some.inj hp
             exact ⟨rfl, hloaded⟩)
    · exact hrefuses

theorem Sound.of_eq (h : s.Sound) (husers : t.users = s.users) (hconsole : t.console = s.console)
    (hdevices : ∀ d ∈ t.devices.rows, d ∈ s.devices.rows ∨
      ∃ user, d.userId = some user ∧ s.hasUser user = true)
    (hrequester : t.requester = s.requester) (herased : t.erased = s.erased) : t.Sound := by
  have huser : ∀ user, t.hasUser user = s.hasUser user := fun user => by
    unfold hasUser
    rw [husers]
  have happlications : t.applications = s.applications := congrArg Console.applications hconsole
  obtain ⟨owner, hrows, hloaded⟩ := h.held
  refine ⟨hconsole ▸ h.wellFormed, fun a ha => ?_, fun d hd user hd' => ?_, fun user hgone => ?_,
    owner, fun a ha => hrows a (happlications ▸ ha), fun rid p hp => ?_⟩
  · rw [huser]
    exact h.applications a (happlications ▸ ha)
  · rw [huser]
    rcases hdevices d hd with hold | ⟨user', hnew, hhas⟩
    · exact h.devices d hold user hd'
    · obtain rfl := Option.some.inj (hd'.symm.trans hnew)
      exact hhas
  · rw [huser]
    exact h.erased user (herased ▸ hgone)
  · rw [happlications, hrequester]
    exact hloaded rid p (hconsole ▸ hp)

/-- A row of an application is written, for a user of the table. -/
theorem Held.put {owner : ℕ → ℕ} (h : s.Held owner) {rid : ℕ} {a : ConsoleApplication}
    {next : Option ConsoleProcess} {changes : List (Change Columns ConsoleApplication)}
    (hid : a.id = s.applications.seq + 1 ∨ a.id ≤ s.applications.seq ∧ owner a.id = a.ownerId)
    (hnext : ∀ p, next = some p → ∃ alias_ old, p = .provisioning alias_ old) :
    ∃ owner', Held owner'
      { s with
        console :=
          { s.console with
            applications := s.applications.put a
            processes := s.console.processes.set rid next
            changes } } := by
  -- only a new key gets an owner
  have howner : ∀ k ≤ s.applications.seq, Function.update owner a.id a.ownerId k = owner k := by
    intro k hk
    by_cases hka : k = a.id
    · rcases hid with hnew | ⟨-, hold⟩
      · omega
      · rw [hka, Function.update_self, hold]
    · exact Function.update_of_ne hka _ _
  refine ⟨Function.update owner a.id a.ownerId, fun b hb => ?_, fun other p hp => ?_⟩
  · rcases Table.mem_put.mp hb with rfl | ⟨hold, -⟩
    · exact Function.update_self _ _ _
    · exact (howner b.id (s.applications.bounded b hold)).trans (h.rows b hold)
  · rcases Pool.set_eq_some.mp hp with ⟨-, hself⟩ | ⟨-, hother⟩
    · obtain ⟨alias_, old, rfl⟩ := hnext p hself
      exact True.intro
    · exact (h.loaded other p hother).mono (Nat.le_max_left _ _) howner

/-- A statement of a request of the console keeps the rows to their users. -/
theorem Moves.sound {rid : ℕ} (h : s.Moves rid t) (hs : s.Sound)
    (hwf : t.console.WellFormed) : t.Sound := by
  obtain ⟨owner, hheld⟩ := hs.held
  have hput : ∀ (a : ConsoleApplication) (next : Option ConsoleProcess)
      (changes : List (Change Columns ConsoleApplication)), s.hasUser a.ownerId = true →
      (a.id = s.applications.seq + 1 ∨ a.id ≤ s.applications.seq ∧ owner a.id = a.ownerId) →
      (∀ p, next = some p → ∃ alias_ old, p = .provisioning alias_ old) →
      Console.WellFormed { s.console with
        applications := s.applications.put a
        processes := s.console.processes.set rid next
        changes } →
      Sound
        { s with
          console :=
            { s.console with
              applications := s.applications.put a
              processes := s.console.processes.set rid next
              changes } } := by
    intro a next changes huser hid hnext hwf
    refine ⟨hwf, fun b hb => ?_, hs.devices, hs.erased, hheld.put hid hnext⟩
    rcases Table.mem_put.mp hb with rfl | ⟨hold, -⟩
    · exact huser
    · exact hs.applications b hold
  -- the request goes on to something that it has not loaded
  have hgoes : ∀ next, (∀ p, next = some p → Loaded owner s.applications.seq (s.requester rid) p) →
      ∀ other p, s.console.processes.set rid next other = some p →
        Loaded owner s.applications.seq (s.requester other) p := by
    intro next hnext other p hp
    rcases Pool.set_eq_some.mp hp with ⟨rfl, hself⟩ | ⟨-, hother⟩
    · exact hnext p hself
    · exact hheld.loaded other p hother
  cases h with
  | writesNothing object purpose attempts next hold hnext =>
    refine ⟨hwf, hs.applications, hs.devices, hs.erased, owner, hheld.rows,
      hgoes next fun p hp => ?_⟩
    obtain ⟨object', attempts', rfl, hid, howner⟩ := hnext p hp
    have hloaded := hheld.loaded rid _ hold
    cases purpose with
    | create => exact howner.trans hloaded
    | patch | regenerateEmail | update =>
      obtain ⟨huser, hkey, hle⟩ := hloaded
      exact ⟨howner.trans huser, hid ▸ hkey, hid ▸ hle⟩
  | creates object attempts a changes hp howner ha =>
    exact hput a _ changes (ha.2 ▸ howner) (Or.inl ha.1)
      (fun p hp => ⟨_, _, (Option.some.inj hp).symm⟩) hwf
  | regenerates object old attempts a changes hp howner hold ha =>
    obtain ⟨huser, hkey, hle⟩ := hheld.loaded rid _ hp
    refine hput a _ changes (ha.2 ▸ howner) (Or.inr ⟨ha.1 ▸ hle, ?_⟩)
      (fun p hp => ⟨_, _, (Option.some.inj hp).symm⟩) hwf
    rw [ha.1, ha.2, hkey, huser]
  | patches object attempts changes hp howner =>
    obtain ⟨huser, hkey, hle⟩ := hheld.loaded rid _ hp
    exact hput object none changes howner (Or.inr ⟨hle, hkey.trans huser.symm⟩) (by simp) hwf
  | updates row a changes hrow ha hp =>
    refine hput a none changes (ha.2.1 ▸ hs.applications row hrow) (Or.inr ⟨?_, ?_⟩) (by simp) hwf
    · rw [ha.1]
      exact s.applications.bounded row hrow
    · rw [ha.1, ha.2.1]
      exact hheld.rows row hrow
  | provisions input alias_ old hp =>
    refine ⟨hwf, hs.applications, hs.devices, hs.erased, owner, hheld.rows, hgoes _ fun p hp => ?_⟩
    split at hp
    · obtain rfl := Option.some.inj hp
      exact True.intro
    · simp at hp
  | deprovisions input alias_ hp =>
    exact ⟨hwf, hs.applications, hs.devices, hs.erased, owner, hheld.rows, hgoes none (by simp)⟩
  | destroys input object hp hobject =>
    refine ⟨hwf, fun a ha => hs.applications a (Table.mem_delete.mp ha).1, hs.devices, hs.erased,
      owner, fun a ha => hheld.rows a (Table.mem_delete.mp ha).1, hgoes _ fun p hp => ?_⟩
    rw [if_pos hobject] at hp
    obtain rfl := Option.some.inj hp
    exact True.intro

theorem hasUser_commit (user : ℕ) (swept devices : List ℕ) (other : ℕ) :
    (s.commit user swept devices).hasUser other = (s.hasUser other && other != user) := by
  change ((s.users.delete fun u => u.id == user).get? other).isSome = _
  rw [Table.get?_delete, hasUser]
  cases hget : s.users.get? other with
  | none => rfl
  | some u =>
    obtain rfl : u.id = other := (Table.get?_eq_some.mp hget).2
    by_cases hid : u.id = user
    · simp [hid, Option.filter]
    · simp [hid, Option.filter]

/-- The devices after a commit. -/
theorem mem_devices_commit {user : ℕ} {swept devices : List ℕ} {d' : Device}
    (h : d' ∈ (s.commit user swept devices).devices.rows) :
    ∃ d ∈ s.devices.rows, d.id ∉ devices ∧ d'.id = d.id ∧
      d'.userId = if d.userId = some user then none else d.userId := by
  change d' ∈ ((s.devices.delete fun d => devices.contains d.id).update
    (fun d => d.userId == some user) withoutUser pk_withoutUser).rows at h
  obtain ⟨d, hd, rfl⟩ := Table.mem_update.mp h
  obtain ⟨hmem, hkept⟩ := Table.mem_delete.mp hd
  refine ⟨d, hmem, by simpa using hkept, ?_, ?_⟩
  · split <;> rfl
  · by_cases huser : d.userId = some user
    · simp [huser, withoutUser]
    · simp [huser]

theorem Sound.commit (h : s.Sound) (user : ℕ) (swept devices : List ℕ) :
    (s.commit user swept devices).Sound := by
  obtain ⟨owner, hrows, hloaded⟩ := h.held
  refine ⟨⟨fun a ha => h.wellFormed.rows a (Table.mem_delete.mp ha).1, h.wellFormed.processes⟩,
    fun a ha => ?_, fun d hd v hv => ?_, fun v hv => ?_, owner,
    fun a ha => hrows a (Table.mem_delete.mp ha).1, hloaded⟩
  · obtain ⟨hmem, hkept⟩ := Table.mem_delete.mp ha
    rw [hasUser_commit, h.applications a hmem]
    simpa using hkept
  · obtain ⟨e, he, -, -, huser⟩ := mem_devices_commit hd
    rw [huser] at hv
    split at hv
    · simp at hv
    · next hne =>
      have hother : v ≠ user := fun heq => hne (hv.trans (congrArg some heq))
      rw [hasUser_commit, h.devices e he v hv]
      simpa using hother
  · rw [hasUser_commit]
    rcases List.mem_cons.mp hv with rfl | hold
    · simp
    · simp [h.erased v hold]

theorem sound_preserves (P : SignInPlatform) :
    (erasure P).Preserves (fun _ _ => True) Sound := by
  intro s a t h _ hstep
  have hsame : ∀ t' : Erasure, t'.users = s.users → t'.console = s.console →
      t'.devices = s.devices → t'.requester = s.requester → t'.erased = s.erased → t'.Sound :=
    fun t' husers hconsole hdevices hrequester herased =>
      h.of_eq husers hconsole (fun d hd => Or.inl (hdevices ▸ hd)) hrequester herased
  cases a with
  | console a =>
    cases a with
    | request rid now r =>
      simp only [erasure, step] at hstep
      split at hstep
      · next hcan =>
        obtain rfl := Option.some.inj hstep
        obtain ⟨hidle, hsteps⟩ := begin_steps h.wellFormed hcan now r
        obtain ⟨owner, hrows, hloaded⟩ := h.held
        obtain ⟨next, changes, hbegin, hnext⟩ := begin_loads hidle hrows now r
        have hwf := hsteps.wellFormed h.wellFormed
        rw [hbegin] at hwf ⊢
        refine ⟨hwf, h.applications, h.devices, h.erased, owner, hrows, fun other p hp => ?_⟩
        rcases Pool.set_eq_some.mp hp with ⟨rfl, hself⟩ | ⟨hne, hother⟩
        · change Loaded owner _ (Function.update s.requester other r.owner other) p
          rw [Function.update_self]
          exact (hnext p hself).2
        · change Loaded owner _ (Function.update s.requester rid r.owner other) p
          rw [Function.update_of_ne hne]
          exact hloaded other p hother
      · simp at hstep
    | advance rid input =>
      obtain ⟨p, hp, rfl⟩ := Option.map_eq_some_iff.mp hstep
      obtain ⟨hsteps, hmoves⟩ := advanceConsole_moves h.wellFormed input hp
      exact hmoves.sound h (hsteps.wellFormed h.wellFormed)
  | login | refresh | upsert | erase =>
    simp only [erasure, step] at hstep
    split at hstep
    · obtain rfl := Option.some.inj hstep
      exact hsame _ rfl rfl rfl rfl rfl
    · simp at hstep
  | advance rid now =>
    obtain ⟨p, hp, hadvance⟩ := Option.bind_eq_some_iff.mp hstep
    cases p with
    | issuing user =>
      obtain rfl := Option.some.inj hadvance
      split <;> exact hsame _ rfl rfl rfl rfl rfl
    | refreshing | recording =>
      obtain rfl := Option.some.inj hadvance
      exact hsame _ rfl rfl rfl rfl rfl
    | upserting user data =>
      simp only [advanceRequest] at hadvance
      split at hadvance
      · simp at hadvance
      · split at hadvance
        · next huser =>
          obtain rfl := Option.some.inj hadvance
          refine h.of_eq rfl rfl (fun d hd => ?_) rfl rfl
          rcases (upsert_cases now { devices := s.devices } user data).device_cases hd with
            ⟨hold, -⟩ | ⟨-, hnew, -⟩
          · exact Or.inl hold
          · exact Or.inr ⟨user, hnew, huser⟩
        · obtain rfl := Option.some.inj hadvance
          exact hsame _ rfl rfl rfl rfl rfl
  | advanceErasure rid =>
    obtain ⟨p, hp, rfl⟩ := Option.map_eq_some_iff.mp hstep
    cases p with
    | sweeping | listing | deletingDevices => exact hsame _ rfl rfl rfl rfl rfl
    | cascading user swept aliases devices =>
      have hcommit := h.commit user swept devices
      exact hcommit.of_eq rfl rfl (fun d hd => Or.inl hd) rfl rfl
    | afterCommit user aliases =>
      cases aliases with
      | nil => exact hsame _ rfl rfl rfl rfl rfl
      | cons alias_ aliases =>
        obtain ⟨owner, hrows, hloaded⟩ := h.held
        exact ⟨⟨h.wellFormed.rows, h.wellFormed.processes⟩, h.applications, h.devices, h.erased,
          owner, hrows, hloaded⟩

/-! ### Aliases -/

/-- The alias was deprovisioned for the user, or will be. -/
def Owed (s : Erasure) (user : ℕ) (alias_ : String) : Prop :=
  alias_ ∈ s.handed ∨
    (∃ rid p, s.console.processes rid = some p ∧ s.requester rid = user ∧ p.leaves alias_) ∨
    ∃ rid aliases, s.erasures rid = some (.afterCommit user aliases) ∧ alias_ ∈ aliases

/-- An application of the user has the alias, or it is owed. -/
def Accounted (s : Erasure) (user : ℕ) (alias_ : String) : Prop :=
  (∃ a ∈ s.applications.rows, a.ownerId = user ∧ a.inboundEmailAlias = alias_) ∨
    s.Owed user alias_

/-- Every alias that was provisioned, or is about to be, is accounted for; and an erasure that has
listed the aliases has those of all applications of its user. -/
structure Tracked (s : Erasure) : Prop where
  provisioned : ∀ user alias_, (user, alias_) ∈ s.provisionedFor → s.Accounted user alias_
  coming : ∀ rid alias_ old, s.console.processes rid = some (.provisioning alias_ old) →
    s.Accounted (s.requester rid) alias_
  listed : ∀ rid stage aliases, s.erasures rid = some stage → stage.aliases = some aliases →
    ∀ a ∈ s.applications.rows, a.ownerId = stage.user → a.inboundEmailAlias ∈ aliases

/-- A request of the console that leaves no alias may go on or end. -/
theorem Owed.console {user : ℕ} {alias_ : String} (h : s.Owed user alias_) {rid : ℕ}
    {next : Option ConsoleProcess}
    (hleaves : ∀ p, s.console.processes rid = some p → ¬p.leaves alias_)
    (hprocesses : t.console.processes = s.console.processes.set rid next)
    (hrequester : ∀ other, other ≠ rid → t.requester other = s.requester other)
    (hhanded : ∀ x ∈ s.handed, x ∈ t.handed) (herasures : t.erasures = s.erasures) :
    t.Owed user alias_ := by
  rcases h with hdone | ⟨other, p, hp, huser, hp'⟩ | herasure
  · exact Or.inl (hhanded _ hdone)
  · have hne : other ≠ rid := by
      rintro rfl
      exact hleaves p hp hp'
    refine Or.inr (Or.inl ⟨other, p, ?_, (hrequester other hne).trans huser, hp'⟩)
    rw [hprocesses, Pool.set_of_ne _ _ hne]
    exact hp
  · exact Or.inr (Or.inr (herasures ▸ herasure))

/-- A request of the console takes its next statement: every alias stays accounted for, and what
it writes is in the lists of the erasures. -/
theorem Tracked.console (h : s.Tracked) {rid : ℕ} {next : Option ConsoleProcess}
    (hprocesses : t.console.processes = s.console.processes.set rid next)
    (hrequester : ∀ other, other ≠ rid → t.requester other = s.requester other)
    (haccounted : ∀ user alias_, s.Accounted user alias_ → t.Accounted user alias_)
    (hnext : ∀ alias_ old, next = some (.provisioning alias_ old) →
      t.Accounted (t.requester rid) alias_)
    (hprovisioned : ∀ user alias_, (user, alias_) ∈ t.provisionedFor →
      (user, alias_) ∈ s.provisionedFor ∨ t.Accounted user alias_)
    (herasures : t.erasures = s.erasures)
    (hrows : ∀ a ∈ t.applications.rows,
      (∃ b ∈ s.applications.rows, b.ownerId = a.ownerId ∧
        b.inboundEmailAlias = a.inboundEmailAlias) ∨
      ∀ other stage, s.erasures other = some stage → stage.user = a.ownerId →
        stage.aliases = none) : t.Tracked := by
  refine ⟨fun user alias_ hmem => ?_, fun other alias_ old hp => ?_,
    fun other stage aliases hstage haliases a ha howner => ?_⟩
  · rcases hprovisioned user alias_ hmem with hold | hnew
    · exact haccounted _ _ (h.provisioned user alias_ hold)
    · exact hnew
  · rw [hprocesses] at hp
    rcases Pool.set_eq_some.mp hp with ⟨rfl, hself⟩ | ⟨hne, hother⟩
    · exact hnext alias_ old hself
    · rw [hrequester other hne]
      exact haccounted _ _ (h.coming other alias_ old hother)
  · rw [herasures] at hstage
    rcases hrows a ha with ⟨b, hb, hbowner, hbalias⟩ | hunlisted
    · exact hbalias ▸ h.listed other stage aliases hstage haliases b hb (hbowner.trans howner)
    · rw [hunlisted other stage hstage howner.symm] at haliases
      simp at haliases

theorem Tracked.of_eq (h : s.Tracked) (hconsole : t.console = s.console)
    (hrequester : t.requester = s.requester) (hprovisioned : t.provisionedFor = s.provisionedFor)
    (hhanded : t.handed = s.handed) (herasures : t.erasures = s.erasures) : t.Tracked := by
  have haccounted : ∀ user alias_, s.Accounted user alias_ → t.Accounted user alias_ := by
    intro user alias_ haccounted
    unfold Accounted Owed applications at *
    rw [hconsole, hrequester, hhanded, herasures]
    exact haccounted
  refine ⟨fun user alias_ hmem => haccounted _ _ (h.provisioned user alias_ (hprovisioned ▸ hmem)),
    fun rid alias_ old hp => ?_, fun rid stage aliases hstage haliases a ha => ?_⟩
  · rw [hrequester]
    exact haccounted _ _ (h.coming rid alias_ old (hconsole ▸ hp))
  · have happlications : t.applications = s.applications := congrArg Console.applications hconsole
    exact h.listed rid stage aliases (herasures ▸ hstage) haliases a (happlications ▸ ha)

/-- A row of an application is written: the alias that it replaces is the same, or leaves. -/
theorem Tracked.put (h : s.Tracked) {rid : ℕ} {p : ConsoleProcess}
    (hp : s.console.processes rid = some p) (hleaves : ∀ alias_, ¬p.leaves alias_)
    {a : ConsoleApplication} {next : Option ConsoleProcess}
    {changes : List (Change Columns ConsoleApplication)}
    (hold : ∀ b ∈ s.applications.rows, b.id = a.id → b.ownerId = a.ownerId ∧
      (b.inboundEmailAlias = a.inboundEmailAlias ∨ s.requester rid = a.ownerId ∧
        ∃ q, next = some q ∧ q.leaves b.inboundEmailAlias))
    (hnext : ∀ alias_ old, next = some (.provisioning alias_ old) →
      alias_ = a.inboundEmailAlias ∧ s.requester rid = a.ownerId)
    (hlisted : (∃ b ∈ s.applications.rows, b.ownerId = a.ownerId ∧
        b.inboundEmailAlias = a.inboundEmailAlias) ∨
      ∀ other stage, s.erasures other = some stage → stage.user = a.ownerId →
        stage.aliases = none) :
    Tracked
      { s with
        console :=
          { s.console with
            applications := s.applications.put a
            processes := s.console.processes.set rid next
            changes } } := by
  refine h.console rfl (fun _ _ => rfl) (fun user alias_ haccounted => ?_)
    (fun alias_ old hq => ?_) (fun _ _ hmem => Or.inl hmem) rfl fun b hb => ?_
  · rcases haccounted with ⟨b, hb, howner, halias⟩ | howed
    · by_cases hid : b.id = a.id
      · obtain ⟨howner', hsame | ⟨huser, q, hq, hleave⟩⟩ := hold b hb hid
        · exact Or.inl ⟨a, Table.mem_put.mpr (Or.inl rfl), howner'.symm.trans howner,
            hsame.symm.trans halias⟩
        · refine Or.inr (Or.inr (Or.inl ⟨rid, q, ?_, huser.trans (howner'.symm.trans howner),
            halias ▸ hleave⟩))
          exact (Pool.set_self _ _ _).trans hq
      · exact Or.inl ⟨b, Table.mem_put.mpr (Or.inr ⟨hb, hid⟩), howner, halias⟩
    · refine Or.inr (howed.console (fun q hq => ?_) rfl (fun _ _ => rfl) (fun _ hx => hx) rfl)
      obtain rfl := Option.some.inj (hp.symm.trans hq)
      exact hleaves alias_
  · obtain ⟨rfl, huser⟩ := hnext alias_ old hq
    exact Or.inl ⟨a, Table.mem_put.mpr (Or.inl rfl), huser.symm, rfl⟩
  · rcases Table.mem_put.mp hb with rfl | ⟨hmem, -⟩
    · exact hlisted
    · exact Or.inl ⟨b, hmem, rfl, rfl⟩

theorem Moves.tracked {rid : ℕ} {input : ConsoleInput} (h : s.Moves rid t) (hs : s.Sound)
    (htracked : s.Tracked) (hok : s.KeepsAliases (.console (.advance rid input))) : t.Tracked := by
  obtain ⟨hsaves, hdeletes⟩ := hok
  obtain ⟨owner, hheld⟩ := hs.held
  have hget : ∀ b ∈ s.applications.rows, ∀ k, b.id = k → s.console.applications.get? k = some b :=
    fun b hb k hk => hk ▸ Table.get?_pk hb
  cases h with
  | writesNothing object purpose attempts next hp hnext =>
    refine htracked.console rfl (fun _ _ => rfl) (fun user x haccounted => ?_)
      (fun x old hq => ?_) (fun _ _ hmem => Or.inl hmem) rfl fun a ha => Or.inl ⟨a, ha, rfl, rfl⟩
    · refine haccounted.imp_right fun howed =>
        howed.console (fun q hq => ?_) rfl (fun _ _ => rfl) (fun _ hx => hx) rfl
      obtain rfl := Option.some.inj (hp.symm.trans hq)
      exact id
    · obtain ⟨object', attempts', hsaving, -⟩ := hnext _ hq
      simp at hsaving
  | creates object attempts a changes hp howner ha =>
    obtain ⟨-, hunlisted⟩ := hsaves object .create attempts hp
    have huser : object.ownerId = s.requester rid := hheld.loaded rid _ hp
    refine htracked.put hp (fun _ h => h) (fun b hb hid => ?_) (fun alias_ old hq => ?_)
      (Or.inr fun other stage hstage hsame => ?_)
    · have hbound : b.id ≤ s.applications.seq := s.applications.bounded b hb
      omega
    · obtain ⟨rfl, -⟩ := ConsoleProcess.provisioning.inj (Option.some.inj hq)
      exact ⟨rfl, huser.symm.trans ha.2.symm⟩
    · exact hunlisted rfl other stage hstage (hsame.trans ha.2)
  | regenerates object old attempts a changes hp howner hold ha =>
    obtain ⟨haligned, hunlisted⟩ := hsaves object (.regenerateEmail old) attempts hp
    obtain ⟨huser, hkey, -⟩ := hheld.loaded rid _ hp
    refine htracked.put hp (fun _ h => h) (fun b hb hid => ?_) (fun alias_ old' hq => ?_)
      (Or.inr fun other stage hstage hsame => ?_)
    · have hrow := hget b hb object.id (hid.trans ha.1)
      have hloaded : b.inboundEmailAlias = old := by
        simpa [Console.aligned, hrow] using haligned
      have howner' : b.ownerId = a.ownerId := by
        rw [← hheld.rows b hb, hid, ha.1, hkey, ha.2, huser]
      refine ⟨howner', ?_⟩
      by_cases hsame : old = a.inboundEmailAlias
      · exact Or.inl (hloaded.trans hsame)
      · exact Or.inr ⟨huser.symm.trans ha.2.symm, _, rfl, hold, hsame, hloaded.symm⟩
    · obtain ⟨rfl, -⟩ := ConsoleProcess.provisioning.inj (Option.some.inj hq)
      exact ⟨rfl, huser.symm.trans ha.2.symm⟩
    · exact hunlisted rfl other stage hstage (hsame.trans ha.2)
  | patches object attempts changes hp howner =>
    obtain ⟨haligned, -⟩ := hsaves object .patch attempts hp
    obtain ⟨row, hrow, hsame⟩ := (Option.any_eq_true _ _).mp haligned
    obtain ⟨hmem, hid⟩ := Table.get?_eq_some.mp hrow
    have hsame : row.inboundEmailAlias = object.inboundEmailAlias := by simpa using hsame
    obtain ⟨huser, hkey, -⟩ := hheld.loaded rid _ hp
    have howner' : row.ownerId = object.ownerId := by
      have hid : row.id = object.id := hid
      rw [← hheld.rows row hmem, hid, hkey, huser]
    refine htracked.put hp (fun _ h => h) (fun b hb hbid => ?_) (by simp)
      (Or.inl ⟨row, hmem, howner', hsame⟩)
    obtain rfl := Option.some.inj (hrow.symm.trans (hget b hb object.id hbid))
    exact ⟨howner', Or.inl hsame⟩
  | updates row a changes hrow ha hp =>
    obtain ⟨object, columns, attempts, hp⟩ := hp
    obtain ⟨hid, howner, halias⟩ := ha
    refine htracked.put hp (fun _ h => h) (fun b hb hbid => ?_) (by simp)
      (Or.inl ⟨row, hrow, howner.symm, halias.symm⟩)
    obtain rfl : row = b := Table.eq_of_pk hrow hb (hbid.trans hid).symm
    exact ⟨howner.symm, Or.inl halias.symm⟩
  | provisions input alias_ old hp =>
    have haccounted : ∀ user x, s.Accounted user x →
        (s.advanceConsole rid input (.provisioning alias_ old)).Accounted user x := by
      intro user x haccounted
      refine haccounted.imp_right fun howed => ?_
      by_cases hown : (ConsoleProcess.provisioning alias_ old).leaves x ∧ s.requester rid = user
      · -- the alias it replaces is deprovisioned next
        obtain ⟨⟨hne, hne', hold⟩, huser⟩ := hown
        refine Or.inr (Or.inl ⟨rid, .deprovisioning old, ?_, huser, hold⟩)
        exact (Pool.set_self _ _ _).trans (if_pos ⟨hne, hne'⟩)
      · rcases howed with hdone | ⟨other, p, hother, huser, hleaves⟩ | herasure
        · exact Or.inl hdone
        · have hne : other ≠ rid := by
            rintro rfl
            obtain rfl := Option.some.inj (hp.symm.trans hother)
            exact hown ⟨hleaves, huser⟩
          exact Or.inr (Or.inl ⟨other, p, (Pool.set_of_ne _ _ hne).trans hother, huser, hleaves⟩)
        · exact Or.inr (Or.inr herasure)
    refine htracked.console rfl (fun _ _ => rfl) haccounted (fun x old' hq => ?_)
      (fun user x hmem => ?_) rfl fun a ha => Or.inl ⟨a, ha, rfl, rfl⟩
    · split at hq <;> simp at hq
    · rcases List.mem_cons.mp hmem with hnew | hmem
      · obtain ⟨rfl, rfl⟩ := Prod.mk.inj hnew
        exact Or.inr (haccounted _ _ (htracked.coming rid _ old hp))
      · exact Or.inl hmem
  | deprovisions input alias_ hp =>
    refine htracked.console rfl (fun _ _ => rfl) (fun user x haccounted => ?_) (by simp)
      (fun _ _ hmem => Or.inl hmem) rfl fun a ha => Or.inl ⟨a, ha, rfl, rfl⟩
    by_cases hx : x = alias_
    · exact Or.inr (Or.inl (hx ▸ List.mem_cons_self))
    · refine haccounted.imp_right fun howed => howed.console (fun q hq hleaves => ?_) rfl
        (fun _ _ => rfl) (fun _ hx => List.mem_cons_of_mem _ hx) rfl
      obtain rfl := Option.some.inj (hp.symm.trans hq)
      exact hx hleaves.symm
  | destroys input object hp hobject =>
    obtain ⟨huser, hkey, -⟩ := hheld.loaded rid _ hp
    have haligned := hdeletes object hp
    refine htracked.console rfl (fun _ _ => rfl) (fun user x haccounted => ?_) (fun x old hq => ?_)
      (fun _ _ hmem => Or.inl hmem) rfl
      fun a ha => Or.inl ⟨a, (Table.mem_delete.mp ha).1, rfl, rfl⟩
    · rcases haccounted with ⟨b, hb, howner, halias⟩ | howed
      · by_cases hid : b.id = object.id
        · have hloaded : b.inboundEmailAlias = object.inboundEmailAlias := by
            simpa [Console.aligned, hget b hb object.id hid] using haligned
          refine Or.inr (Or.inr (Or.inl ⟨rid, .deprovisioning object.inboundEmailAlias, ?_, ?_,
            hloaded.symm.trans halias⟩))
          · exact (Pool.set_self _ _ _).trans (if_pos hobject)
          · change s.requester rid = user
            rw [← howner, ← hheld.rows b hb, hid, hkey]
        · exact Or.inl ⟨b, Table.mem_delete.mpr ⟨hb, by simpa using hid⟩, howner, halias⟩
      · refine Or.inr (howed.console (fun q hq => ?_) rfl (fun _ _ => rfl) (fun _ hx => hx) rfl)
        obtain rfl := Option.some.inj (hp.symm.trans hq)
        exact id
    · split at hq <;> simp at hq

theorem Owed.erasure {user : ℕ} {alias_ : String} (h : s.Owed user alias_) {rid : ℕ}
    {next : Option ErasureStage} (hprocesses : t.console.processes = s.console.processes)
    (hrequester : t.requester = s.requester) (hhanded : ∀ x ∈ s.handed, x ∈ t.handed)
    (herasures : t.erasures = s.erasures.set rid next)
    (hafter : ∀ aliases, s.erasures rid = some (.afterCommit user aliases) → alias_ ∈ aliases →
      alias_ ∈ t.handed ∨
        ∃ aliases', next = some (.afterCommit user aliases') ∧ alias_ ∈ aliases') :
    t.Owed user alias_ := by
  rcases h with hdone | ⟨other, p, hp, huser, hleaves⟩ | ⟨other, aliases, hstage, hmem⟩
  · exact Or.inl (hhanded _ hdone)
  · refine Or.inr (Or.inl ⟨other, p, ?_, ?_, hleaves⟩)
    · rw [hprocesses]
      exact hp
    · rw [hrequester]
      exact huser
  · by_cases hrid : other = rid
    · subst hrid
      rcases hafter aliases hstage hmem with hdone | ⟨aliases', hnext, hmem'⟩
      · exact Or.inl hdone
      · refine Or.inr (Or.inr ⟨other, aliases', ?_, hmem'⟩)
        rw [herasures, Pool.set_self]
        exact hnext
    · refine Or.inr (Or.inr ⟨other, aliases, ?_, hmem⟩)
      rw [herasures, Pool.set_of_ne _ _ hrid]
      exact hstage

/-- An erasure takes its next statement. -/
theorem Tracked.erasure (h : s.Tracked) {rid : ℕ} {next : Option ErasureStage}
    (hprocesses : t.console.processes = s.console.processes)
    (hrequester : t.requester = s.requester) (hprovisioned : t.provisionedFor = s.provisionedFor)
    (herasures : t.erasures = s.erasures.set rid next)
    (haccounted : ∀ user alias_, s.Accounted user alias_ → t.Accounted user alias_)
    (hrows : ∀ a ∈ t.applications.rows, a ∈ s.applications.rows)
    (hnext : ∀ stage aliases, next = some stage → stage.aliases = some aliases →
      ∀ a ∈ s.applications.rows, a.ownerId = stage.user → a.inboundEmailAlias ∈ aliases) :
    t.Tracked := by
  refine ⟨fun user alias_ hmem => haccounted _ _ (h.provisioned user alias_ (hprovisioned ▸ hmem)),
    fun other alias_ old hp => ?_, fun other stage aliases hstage haliases a ha howner => ?_⟩
  · rw [hrequester]
    exact haccounted _ _ (h.coming other alias_ old (hprocesses ▸ hp))
  · rw [herasures] at hstage
    rcases Pool.set_eq_some.mp hstage with ⟨-, hself⟩ | ⟨-, hother⟩
    · exact hnext stage aliases hself haliases a (hrows a ha) howner
    · exact h.listed other stage aliases hother haliases a (hrows a ha) howner

theorem Tracked.advanceErasure (h : s.Tracked) (hs : s.Sound) {rid : ℕ} {stage : ErasureStage}
    (hstage : s.erasures rid = some stage) : (s.advanceErasure rid stage).Tracked := by
  have hnone : ∀ user aliases alias_ (Q : Prop), (∀ u xs, stage ≠ .afterCommit u xs) →
      s.erasures rid = some (.afterCommit user aliases) → alias_ ∈ aliases → Q := by
    intro user aliases alias_ Q hne hafter _
    exact absurd (Option.some.inj (hstage.symm.trans hafter)) (hne user aliases)
  cases stage with
  | sweeping user =>
    refine h.erasure rfl rfl rfl rfl (fun v x haccounted => haccounted.imp_right fun howed =>
      howed.erasure rfl rfl (fun _ hx => hx) rfl fun aliases => hnone v aliases x _ (by simp))
      (fun _ ha => ha) fun stage aliases hnext haliases => ?_
    obtain rfl := Option.some.inj hnext
    simp [ErasureStage.aliases] at haliases
  | listing user swept =>
    refine h.erasure rfl rfl rfl rfl (fun v x haccounted => haccounted.imp_right fun howed =>
      howed.erasure rfl rfl (fun _ hx => hx) rfl fun aliases => hnone v aliases x _ (by simp))
      (fun _ ha => ha) fun stage aliases hnext haliases a ha howner => ?_
    obtain rfl := Option.some.inj hnext
    obtain rfl := Option.some.inj haliases
    have hne : a.inboundEmailAlias ≠ "" := (hs.wellFormed.rows a ha).inboundEmailAlias
    have howner : a.ownerId = user := howner
    exact List.mem_map.mpr ⟨a, List.mem_filter.mpr ⟨ha, by simp [howner, hne]⟩, rfl⟩
  | deletingDevices user swept aliases =>
    refine h.erasure rfl rfl rfl rfl (fun v x haccounted => haccounted.imp_right fun howed =>
      howed.erasure rfl rfl (fun _ hx => hx) rfl fun aliases => hnone v aliases x _ (by simp))
      (fun _ ha => ha) fun stage aliases' hnext haliases => ?_
    obtain rfl := Option.some.inj hnext
    exact h.listed rid (.deletingDevices user swept aliases) aliases' hstage haliases
  | cascading user swept aliases devices =>
    refine h.erasure rfl rfl rfl rfl (fun v x haccounted => ?_)
      (fun a ha => (Table.mem_delete.mp ha).1) fun stage aliases' hnext haliases => ?_
    · rcases haccounted with ⟨a, ha, howner, halias⟩ | howed
      · by_cases hgone : a.ownerId = user
        · have hlisted : a.inboundEmailAlias ∈ aliases :=
            h.listed rid _ aliases hstage rfl a ha hgone
          refine Or.inr (Or.inr (Or.inr ⟨rid, aliases, ?_, halias ▸ hlisted⟩))
          rw [← howner, hgone]
          exact Pool.set_self _ _ _
        · exact Or.inl ⟨a, Table.mem_delete.mpr ⟨ha, by simpa using hgone⟩, howner, halias⟩
      · exact Or.inr (howed.erasure rfl rfl (fun _ hx => hx) rfl fun aliases' =>
          hnone v aliases' x _ (by simp))
    · obtain rfl := Option.some.inj hnext
      simp [ErasureStage.aliases] at haliases
  | afterCommit user aliases =>
    have hsame : ∀ {v xs}, s.erasures rid = some (.afterCommit v xs) → user = v ∧ aliases = xs :=
      fun hafter => ErasureStage.afterCommit.inj (Option.some.inj (hstage.symm.trans hafter))
    cases aliases with
    | nil =>
      refine h.erasure rfl rfl rfl rfl (fun v x haccounted => haccounted.imp_right fun howed =>
        howed.erasure rfl rfl (fun _ hx => hx) rfl fun xs hafter hmem => ?_)
        (fun _ ha => ha) (by simp)
      obtain ⟨-, rfl⟩ := hsame hafter
      simp at hmem
    | cons alias_ aliases =>
      refine h.erasure rfl rfl rfl rfl (fun v x haccounted => haccounted.imp_right fun howed =>
        howed.erasure rfl rfl (fun _ hx => List.mem_cons_of_mem _ hx) rfl fun xs hafter hmem => ?_)
        (fun _ ha => ha) fun stage aliases' hnext haliases => ?_
      · obtain rfl := Option.some.inj hnext
        simp [ErasureStage.aliases] at haliases
      · obtain ⟨rfl, rfl⟩ := hsame hafter
        rcases List.mem_cons.mp hmem with rfl | hmem
        · exact Or.inl List.mem_cons_self
        · exact Or.inr ⟨aliases, rfl, hmem⟩

/-- One action. -/
theorem Tracked.step {a : ErasureAction} (hs : s.Sound) (h : s.Tracked) (hok : s.KeepsAliases a)
    (hstep : s.step P a = some t) : t.Tracked := by
  cases a with
  | console a =>
    cases a with
    | request rid now r =>
      simp only [Erasure.step] at hstep
      split at hstep
      · next hcan =>
        obtain rfl := Option.some.inj hstep
        obtain ⟨hidle, -⟩ := begin_steps hs.wellFormed hcan now r
        obtain ⟨owner, hrows, -⟩ := hs.held
        obtain ⟨next, changes, hbegin, hnext⟩ := begin_loads hidle hrows now r
        rw [hbegin]
        refine h.console rfl (fun other hne => Function.update_of_ne hne _ _)
          (fun user x haccounted => haccounted.imp_right fun howed => ?_) (fun x old hq => ?_)
          (fun _ _ hmem => Or.inl hmem) rfl fun a ha => Or.inl ⟨a, ha, rfl, rfl⟩
        · exact howed.console (by simp [hidle]) rfl (fun other hne => Function.update_of_ne hne _ _)
            (fun _ hx => hx) rfl
        · have howes := (hnext _ hq).1
          simp [ConsoleProcess.owesNothing] at howes
      · simp at hstep
    | advance rid input =>
      obtain ⟨p, hp, rfl⟩ := Option.map_eq_some_iff.mp hstep
      exact (advanceConsole_moves hs.wellFormed input hp).2.tracked hs h hok
  | login | refresh | upsert =>
    simp only [Erasure.step] at hstep
    split at hstep
    · obtain rfl := Option.some.inj hstep
      exact h.of_eq rfl rfl rfl rfl rfl
    · simp at hstep
  | erase rid user =>
    simp only [Erasure.step] at hstep
    split at hstep
    · next hidle =>
      obtain rfl := Option.some.inj hstep
      have hidle : s.erasures rid = none := Option.isNone_iff_eq_none.mp hidle
      refine h.erasure rfl rfl rfl rfl (fun v x haccounted => haccounted.imp_right fun howed =>
        howed.erasure rfl rfl (fun _ hx => hx) rfl (by simp [hidle])) (fun _ ha => ha)
        fun stage aliases hnext haliases => ?_
      obtain ⟨u, -, rfl⟩ := Option.map_eq_some_iff.mp hnext
      simp [ErasureStage.aliases] at haliases
    · simp at hstep
  | advance rid now =>
    obtain ⟨p, -, hadvance⟩ := Option.bind_eq_some_iff.mp hstep
    cases p with
    | issuing user =>
      obtain rfl := Option.some.inj hadvance
      split <;> exact h.of_eq rfl rfl rfl rfl rfl
    | refreshing | recording =>
      obtain rfl := Option.some.inj hadvance
      exact h.of_eq rfl rfl rfl rfl rfl
    | upserting user data =>
      simp only [advanceRequest] at hadvance
      split at hadvance
      · simp at hadvance
      · split at hadvance
        all_goals
          obtain rfl := Option.some.inj hadvance
          exact h.of_eq rfl rfl rfl rfl rfl
  | advanceErasure rid =>
    obtain ⟨stage, hstage, rfl⟩ := Option.map_eq_some_iff.mp hstep
    exact h.advanceErasure hs hstage

/-! ### Devices -/

/-- Every device is under its last user, and an erasure that has deleted the devices has deleted
those of its user. -/
structure KeptDevices (s : Erasure) : Prop where
  last : ∀ d ∈ s.devices.rows, s.lastUser d.id = d.userId
  deleted : ∀ rid stage devices, s.erasures rid = some stage → stage.devices = some devices →
    ∀ d ∈ s.devices.rows, d.userId = some stage.user → d.id ∈ devices

theorem KeptDevices.of_eq (h : s.KeptDevices) (hdevices : t.devices = s.devices)
    (hlast : t.lastUser = s.lastUser) (herasures : t.erasures = s.erasures) : t.KeptDevices := by
  refine ⟨fun d hd => ?_, fun rid stage devices hstage hlisted d hd => ?_⟩
  · rw [hlast]
    exact h.last d (hdevices ▸ hd)
  · exact h.deleted rid stage devices (herasures ▸ hstage) hlisted d (hdevices ▸ hd)

theorem KeptDevices.erasure (h : s.KeptDevices) {rid : ℕ} {next : Option ErasureStage}
    (hdevices : t.devices = s.devices) (hlast : t.lastUser = s.lastUser)
    (herasures : t.erasures = s.erasures.set rid next)
    (hnext : ∀ stage devices, next = some stage → stage.devices = some devices →
      ∀ d ∈ s.devices.rows, d.userId = some stage.user → d.id ∈ devices) : t.KeptDevices := by
  refine ⟨fun d hd => ?_, fun other stage devices hstage hlisted d hd => ?_⟩
  · rw [hlast]
    exact h.last d (hdevices ▸ hd)
  · rw [herasures] at hstage
    rcases Pool.set_eq_some.mp hstage with ⟨-, hself⟩ | ⟨-, hother⟩
    · exact hnext stage devices hself hlisted d (hdevices ▸ hd)
    · exact h.deleted other stage devices hother hlisted d (hdevices ▸ hd)

theorem KeptDevices.advanceErasure (h : s.KeptDevices) {rid : ℕ} {stage : ErasureStage}
    (hstage : s.erasures rid = some stage) : (s.advanceErasure rid stage).KeptDevices := by
  have hunlisted : ∀ (p : ErasureStage), p.devices = none → ∀ q devices, some p = some q →
      q.devices = some devices → ∀ d ∈ s.devices.rows, d.userId = some q.user → d.id ∈ devices := by
    intro p hp q devices hq hdevices
    obtain rfl := Option.some.inj hq
    simp [hp] at hdevices
  cases stage with
  | sweeping user => exact h.erasure rfl rfl rfl (hunlisted _ rfl)
  | listing user swept => exact h.erasure rfl rfl rfl (hunlisted _ rfl)
  | deletingDevices user swept aliases =>
    refine h.erasure rfl rfl rfl fun stage devices hnext hlisted d hd huser => ?_
    obtain rfl := Option.some.inj hnext
    obtain rfl := Option.some.inj hlisted
    have huser : d.userId = some user := huser
    exact List.mem_map.mpr ⟨d, List.mem_filter.mpr ⟨hd, by simp [huser]⟩, rfl⟩
  | cascading user swept aliases devices =>
    -- no device is left for `SET_NULL`
    have hkept : ∀ d' ∈ (s.commit user swept devices).devices.rows,
        ∃ d ∈ s.devices.rows, d'.id = d.id ∧ d'.userId = d.userId := by
      intro d' hd'
      obtain ⟨d, hd, hnot, hid, huser⟩ := mem_devices_commit hd'
      have hother : d.userId ≠ some user := fun heq =>
        hnot (h.deleted rid _ devices hstage rfl d hd heq)
      exact ⟨d, hd, hid, huser.trans (if_neg hother)⟩
    refine ⟨fun d' hd' => ?_, fun other q ids hq hids d' hd' huser => ?_⟩
    · obtain ⟨d, hd, hid, huser⟩ := hkept d' hd'
      rw [hid, huser]
      exact h.last d hd
    · obtain ⟨d, hd, hid, huser'⟩ := hkept d' hd'
      rcases Pool.set_eq_some.mp hq with ⟨-, hself⟩ | ⟨-, hother⟩
      · obtain rfl := Option.some.inj hself
        simp [ErasureStage.devices] at hids
      · rw [hid]
        exact h.deleted other q ids hother hids d hd (huser'.symm.trans huser)
  | afterCommit user aliases =>
    cases aliases with
    | nil => exact h.erasure rfl rfl rfl (by simp)
    | cons alias_ aliases => exact h.erasure rfl rfl rfl (hunlisted _ rfl)

theorem keptDevices_preserves (P : SignInPlatform) :
    (erasure P).Preserves (fun s a => s.KeepsDevices a) KeptDevices := by
  intro s a t h hok hstep
  cases a with
  | console a =>
    cases a with
    | request rid now r =>
      simp only [PushIT.erasure, Erasure.step] at hstep
      split at hstep
      · obtain rfl := Option.some.inj hstep
        exact h.of_eq rfl rfl rfl
      · simp at hstep
    | advance rid input =>
      obtain ⟨p, -, rfl⟩ := Option.map_eq_some_iff.mp hstep
      cases p with
      | saving =>
        simp only [advanceConsole]
        split <;> exact h.of_eq rfl rfl rfl
      | provisioning | deprovisioning | deleting => exact h.of_eq rfl rfl rfl
  | login | refresh | upsert =>
    simp only [PushIT.erasure, Erasure.step] at hstep
    split at hstep
    · obtain rfl := Option.some.inj hstep
      exact h.of_eq rfl rfl rfl
    · simp at hstep
  | erase rid user =>
    simp only [PushIT.erasure, Erasure.step] at hstep
    split at hstep
    · obtain rfl := Option.some.inj hstep
      refine h.erasure rfl rfl rfl fun stage devices hnext hlisted => ?_
      obtain ⟨u, -, rfl⟩ := Option.map_eq_some_iff.mp hnext
      simp [ErasureStage.devices] at hlisted
    · simp at hstep
  | advance rid now =>
    obtain ⟨p, hp, hadvance⟩ := Option.bind_eq_some_iff.mp hstep
    cases p with
    | issuing user =>
      obtain rfl := Option.some.inj hadvance
      split <;> exact h.of_eq rfl rfl rfl
    | refreshing | recording =>
      obtain rfl := Option.some.inj hadvance
      exact h.of_eq rfl rfl rfl
    | upserting user data =>
      simp only [advanceRequest] at hadvance
      split at hadvance
      · simp at hadvance
      · split at hadvance
        · obtain rfl := Option.some.inj hadvance
          have hcases : ∀ d ∈ (upsertDevice now s.devices user data).db.devices.rows, _ :=
            fun d hd => (upsert_cases now { devices := s.devices } user data).device_cases hd
          refine ⟨fun d hd => ?_, fun other stage devices hstage hlisted d hd huser => ?_⟩
          · change Function.update s.lastUser (upsertDevice now s.devices user data).deviceId
              (some user) d.id = d.userId
            rcases hcases d hd with ⟨hold, hne⟩ | ⟨hid, hnew, -⟩
            · exact (Function.update_of_ne hne _ _).trans (h.last d hold)
            · rw [hid, hnew]
              exact Function.update_self _ _ _
          · rcases hcases d hd with ⟨hold, -⟩ | ⟨-, hnew, -⟩
            · exact h.deleted other stage devices hstage hlisted d hold huser
            · have hsame := Option.some.inj (huser.symm.trans hnew)
              simp [hok user data hp other stage hstage hsame] at hlisted
        · obtain rfl := Option.some.inj hadvance
          exact h.of_eq rfl rfl rfl
  | advanceErasure rid =>
    obtain ⟨stage, hstage, rfl⟩ := Option.map_eq_some_iff.mp hstep
    exact h.advanceErasure hstage

/-! ### Tokens -/

/-- The tokens of the user are blacklisted or listed, and no request will record another one. -/
def SweptFor (s : Erasure) (user : ℕ) (ids : List ℕ) : Prop :=
  (∀ x ∈ s.tokens.rows, x.userId = user → x.blacklisted = true ∨ x.id ∈ ids) ∧
  ∀ rid p, s.requests rid = some p → p.signsIn user = false

structure KeptTokens (s : Erasure) : Prop where
  stages : ∀ rid stage ids, s.erasures rid = some stage → stage.swept = some ids →
    s.SweptFor stage.user ids
  erased : ∀ user ∈ s.erased, s.SweptFor user []

theorem SweptFor.keep {user : ℕ} {ids : List ℕ} (h : s.SweptFor user ids) {minted : Option ℕ}
    (htokens : Sessions.Evolves s.tokens minted t.tokens) (hminted : minted ≠ some user)
    (hrequests : ∀ rid p, t.requests rid = some p → p.signsIn user = true →
      ∃ other q, s.requests other = some q ∧ q.signsIn user = true) : t.SweptFor user ids := by
  refine ⟨fun x hx huser => ?_, fun rid p hp => ?_⟩
  · rcases htokens x hx with ⟨y, hy, hid, howner, hblack⟩ | ⟨-, hnew⟩
    · rcases h.1 y hy (howner.trans huser) with hdone | hlisted
      · exact Or.inl (hblack hdone)
      · exact Or.inr (hid ▸ hlisted)
    · exact absurd (hnew.trans (congrArg some huser)) hminted
  · by_contra hsigns
    obtain ⟨other, q, hq, hq'⟩ := hrequests rid p hp (by simpa using hsigns)
    simp [h.2 other q hq] at hq'

theorem SweptFor.of_eq {user : ℕ} {ids : List ℕ} (h : s.SweptFor user ids)
    (htokens : t.tokens = s.tokens) (hrequests : t.requests = s.requests) :
    t.SweptFor user ids := by
  unfold SweptFor at *
  rw [htokens, hrequests]
  exact h

/-- A request goes on or ends, after recording a token for its user or not. -/
theorem SweptFor.advance {user : ℕ} {ids : List ℕ} (h : s.SweptFor user ids) {rid : ℕ}
    {p : UserRequest} (hp : s.requests rid = some p) {next : Option UserRequest}
    {minted : Option ℕ} (htokens : Sessions.Evolves s.tokens minted t.tokens)
    (hrequests : t.requests = s.requests.set rid next)
    (hminted : minted = some user → p.signsIn user = true)
    (hnext : ∀ q, next = some q → q.signsIn user = true → p.signsIn user = true) :
    t.SweptFor user ids := by
  refine h.keep htokens (fun heq => ?_) fun other q hq hsigns => ?_
  · simpa [h.2 rid p hp] using hminted heq
  · rw [hrequests] at hq
    rcases Pool.set_eq_some.mp hq with ⟨-, hself⟩ | ⟨-, hother⟩
    · exact ⟨rid, p, hp, hnext q hself hsigns⟩
    · exact ⟨other, q, hother, hsigns⟩

/-- A login, a refresh or a device request begins or goes on. -/
theorem KeptTokens.request (h : s.KeptTokens) (herasures : t.erasures = s.erasures)
    (herased : t.erased = s.erased)
    (hkeep : ∀ user ids, s.SweptFor user ids →
      (user ∈ s.erased ∨ ∃ rid stage, s.erasures rid = some stage ∧ stage.swept = some ids ∧
        stage.user = user) → t.SweptFor user ids) : t.KeptTokens := by
  refine ⟨fun rid stage ids hstage hswept => ?_, fun user huser => ?_⟩
  · have hstage : s.erasures rid = some stage := herasures ▸ hstage
    exact hkeep _ _ (h.stages rid stage ids hstage hswept)
      (Or.inr ⟨rid, stage, hstage, hswept, rfl⟩)
  · have huser : user ∈ s.erased := herased ▸ huser
    exact hkeep _ _ (h.erased user huser) (Or.inl huser)

theorem KeptTokens.erasure (h : s.KeptTokens) {rid : ℕ} {next : Option ErasureStage}
    (htokens : t.tokens = s.tokens) (hrequests : t.requests = s.requests)
    (herased : t.erased = s.erased) (herasures : t.erasures = s.erasures.set rid next)
    (hnext : ∀ stage ids, next = some stage → stage.swept = some ids →
      s.SweptFor stage.user ids) : t.KeptTokens := by
  refine ⟨fun other stage ids hstage hswept => ?_, fun user huser => ?_⟩
  · rw [herasures] at hstage
    rcases Pool.set_eq_some.mp hstage with ⟨-, hself⟩ | ⟨-, hother⟩
    · exact (hnext stage ids hself hswept).of_eq htokens hrequests
    · exact (h.stages other stage ids hother hswept).of_eq htokens hrequests
  · exact (h.erased user (herased ▸ huser)).of_eq htokens hrequests

theorem KeptTokens.advanceErasure (h : s.KeptTokens) {rid : ℕ} {stage : ErasureStage}
    (hstage : s.erasures rid = some stage)
    (hok : s.KeepsTokens P (.advanceErasure rid)) : (s.advanceErasure rid stage).KeptTokens := by
  cases stage with
  | sweeping user =>
    refine h.erasure rfl rfl rfl rfl fun stage ids hnext hswept => ?_
    obtain rfl := Option.some.inj hnext
    obtain rfl := Option.some.inj hswept
    refine ⟨fun x hx huser => Or.inr ?_, hok user hstage⟩
    have huser : x.userId = user := huser
    exact List.mem_map.mpr ⟨x, List.mem_filter.mpr ⟨hx, by simp [huser]⟩, rfl⟩
  | listing user swept =>
    refine h.erasure rfl rfl rfl rfl fun stage ids hnext hswept => ?_
    obtain rfl := Option.some.inj hnext
    exact h.stages rid (.listing user swept) ids hstage hswept
  | deletingDevices user swept aliases =>
    refine h.erasure rfl rfl rfl rfl fun stage ids hnext hswept => ?_
    obtain rfl := Option.some.inj hnext
    exact h.stages rid (.deletingDevices user swept aliases) ids hstage hswept
  | cascading user swept aliases devices =>
    have hkeep : ∀ v ids, s.SweptFor v ids → (s.commit user swept devices).SweptFor v ids :=
      fun v ids hv => hv.keep (Sessions.evolves_blacklistTokens s.tokens swept none) (by simp)
        fun other p hp hsigns => ⟨other, p, hp, hsigns⟩
    obtain ⟨htokens, hrequests⟩ := h.stages rid (.cascading user swept aliases devices) swept
      hstage rfl
    refine ⟨fun other stage ids hother hswept => ?_, fun v hv => ?_⟩
    · rcases Pool.set_eq_some.mp hother with ⟨-, hself⟩ | ⟨-, hother⟩
      · obtain rfl := Option.some.inj hself
        simp [ErasureStage.swept] at hswept
      · exact (hkeep _ _ (h.stages other stage ids hother hswept)).of_eq rfl rfl
    · rcases List.mem_cons.mp hv with rfl | hold
      · refine ⟨fun x hx huser => Or.inl ?_, hrequests⟩
        obtain ⟨y, hy, hid, howner, hblack⟩ := Sessions.mem_blacklistTokens hx
        exact hblack (htokens y hy (howner.trans huser))
      · exact (hkeep _ _ (h.erased v hold)).of_eq rfl rfl
  | afterCommit user aliases =>
    cases aliases with
    | nil => exact h.erasure rfl rfl rfl rfl (by simp)
    | cons alias_ aliases =>
      refine h.erasure rfl rfl rfl rfl fun stage ids hnext hswept => ?_
      obtain rfl := Option.some.inj hnext
      simp [ErasureStage.swept] at hswept

/-- A request that records a token begins for a user whose tokens are not being swept. -/
theorem KeptTokens.begin (h : s.KeptTokens) (hs : s.Sound) {rid : ℕ} {next : Option UserRequest}
    (hnext : ∀ p, next = some p → ∀ user, p.signsIn user = true → s.hasUser user = true ∧
      ∀ other stage, s.erasures other = some stage → stage.user = user → stage.swept = none) :
    (s.setRequest rid next).KeptTokens := by
  refine h.request rfl rfl fun user ids hswept hwhy => ?_
  refine hswept.keep (Sessions.evolves_refl s.tokens none) (by simp) fun other p hp hsigns => ?_
  rcases Pool.set_eq_some.mp hp with ⟨-, hself⟩ | ⟨-, hother⟩
  · obtain ⟨huser, hunswept⟩ := hnext p hself user hsigns
    rcases hwhy with herased | ⟨other, stage, hstage, hids, hsame⟩
    · simp [hs.erased user herased] at huser
    · simp [hunswept other stage hstage hsame] at hids
  · exact ⟨other, p, hother, hsigns⟩

theorem KeptTokens.step {a : ErasureAction} (hs : s.Sound) (h : s.KeptTokens)
    (hok : s.KeepsTokens P a) (hstep : s.step P a = some t) : t.KeptTokens := by
  have hsame : ∀ t' : Erasure, t'.erasures = s.erasures → t'.erased = s.erased →
      t'.tokens = s.tokens → t'.requests = s.requests → t'.KeptTokens :=
    fun t' herasures herased htokens hrequests =>
      h.request herasures herased fun _ _ hswept _ => hswept.of_eq htokens hrequests
  cases a with
  | console a =>
    cases a with
    | request rid now r =>
      simp only [Erasure.step] at hstep
      split at hstep
      · obtain rfl := Option.some.inj hstep
        exact hsame _ rfl rfl rfl rfl
      · simp at hstep
    | advance rid input =>
      obtain ⟨p, -, rfl⟩ := Option.map_eq_some_iff.mp hstep
      cases p with
      | saving =>
        simp only [advanceConsole]
        split <;> exact hsame _ rfl rfl rfl rfl
      | provisioning | deprovisioning | deleting => exact hsame _ rfl rfl rfl rfl
  | login rid email password =>
    simp only [Erasure.step] at hstep
    split at hstep
    · obtain rfl := Option.some.inj hstep
      refine h.begin hs fun p hp user hsigns => ?_
      obtain ⟨u, hu, rfl⟩ := Option.map_eq_some_iff.mp hp
      obtain rfl : u.id = user := eq_of_beq hsigns
      have hrow := List.mem_of_find?_eq_some (Option.filter_eq_some_iff.mp hu).1
      exact ⟨Option.isSome_of_eq_some (Table.get?_pk hrow), hok u hu⟩
    · simp at hstep
  | refresh rid token =>
    simp only [Erasure.step] at hstep
    split at hstep
    · obtain rfl := Option.some.inj hstep
      refine h.begin hs fun p hp user hsigns => ?_
      obtain ⟨x, hx, rfl⟩ := Option.map_eq_some_iff.mp hp
      obtain rfl : x.userId = user := eq_of_beq hsigns
      obtain ⟨-, -, -, huser⟩ := Sessions.findUsable_spec hx
      obtain ⟨u, hu, -⟩ := (Option.any_eq_true _ _).mp huser
      exact ⟨Option.isSome_of_eq_some hu, hok x hx⟩
    · simp at hstep
  | upsert rid user data =>
    simp only [Erasure.step] at hstep
    split at hstep
    · obtain rfl := Option.some.inj hstep
      refine h.begin hs fun p hp v hsigns => ?_
      obtain ⟨u, -, rfl⟩ := Option.map_eq_some_iff.mp hp
      simp [UserRequest.signsIn] at hsigns
    · simp at hstep
  | erase rid user =>
    simp only [Erasure.step] at hstep
    split at hstep
    · obtain rfl := Option.some.inj hstep
      refine h.erasure rfl rfl rfl rfl fun stage ids hnext hswept => ?_
      obtain ⟨u, -, rfl⟩ := Option.map_eq_some_iff.mp hnext
      simp [ErasureStage.swept] at hswept
    · simp at hstep
  | advance rid now =>
    obtain ⟨p, hp, hadvance⟩ := Option.bind_eq_some_iff.mp hstep
    -- the request keeps its user
    have hgoes : ∀ (tokens : Table RefreshToken) (minted : Option ℕ) (next : Option UserRequest),
        Sessions.Evolves s.tokens minted tokens →
        (∀ user, minted = some user → p.signsIn user = true) →
        (∀ q user, next = some q → q.signsIn user = true → p.signsIn user = true) →
        KeptTokens ({ s with tokens }.setRequest rid next) :=
      fun tokens minted next htokens hminted hnext =>
        h.request rfl rfl fun user ids hswept _ =>
          hswept.advance hp htokens rfl (hminted user) fun q hq => hnext q user hq
    have hends : (s.setRequest rid none).KeptTokens :=
      hgoes s.tokens none none (Sessions.evolves_refl _ _) (by simp) (by simp)
    cases p with
    | issuing user =>
      obtain rfl := Option.some.inj hadvance
      split
      · exact hgoes _ (some user) none ((Sessions.evolves_refl _ _).mint rfl)
          (fun v hv => by simp [UserRequest.signsIn, Option.some.inj hv]) (by simp)
      · exact hends
    | refreshing token user =>
      obtain rfl := Option.some.inj hadvance
      refine hgoes _ none _ (Sessions.evolves_blacklistTokens _ _ _) (by simp)
        fun q v hq hsigns => ?_
      obtain rfl := Option.some.inj hq
      exact hsigns
    | recording user =>
      obtain rfl := Option.some.inj hadvance
      exact hgoes _ (some user) none ((Sessions.evolves_refl _ _).mint rfl)
        (fun v hv => by simp [UserRequest.signsIn, Option.some.inj hv]) (by simp)
    | upserting user data =>
      simp only [advanceRequest] at hadvance
      split at hadvance
      · simp at hadvance
      · split at hadvance
        all_goals
          obtain rfl := Option.some.inj hadvance
          exact h.request rfl rfl fun v ids hswept _ => hswept.advance hp
            (Sessions.evolves_refl _ none) rfl (by simp) (by simp)
  | advanceErasure rid =>
    obtain ⟨stage, hstage, rfl⟩ := Option.map_eq_some_iff.mp hstep
    exact h.advanceErasure hstage hok

/-! ### Runs -/

/-- A server on which nothing is under way: the rows name users of the table, and the aliases that
were provisioned are those of the applications. -/
structure Start (s : Erasure) : Prop where
  complete : ∀ a ∈ s.applications.rows, a.Complete
  applications : ∀ a ∈ s.applications.rows, s.hasUser a.ownerId = true
  devices : ∀ d ∈ s.devices.rows, ∀ user, d.userId = some user → s.hasUser user = true
  lastUser : ∀ d ∈ s.devices.rows, s.lastUser d.id = d.userId
  provisioned : ∀ user alias_, (user, alias_) ∈ s.provisionedFor →
    ∃ a ∈ s.applications.rows, a.ownerId = user ∧ a.inboundEmailAlias = alias_
  console : s.console.processes = .idle
  requests : s.requests = .idle
  erasures : s.erasures = .idle
  erased : s.erased = []

theorem Start.sound (h : s.Start) : s.Sound where
  wellFormed := ⟨h.complete, by simp [h.console]⟩
  applications := h.applications
  devices := h.devices
  erased := by simp [h.erased]
  held := by
    refine ⟨fun k => ((s.applications.get? k).map (·.ownerId)).getD 0, fun a ha => ?_,
      by simp [h.console]⟩
    have hget : s.applications.get? a.id = some a := Table.get?_pk ha
    simp [hget]

theorem Start.tracked (h : s.Start) : s.Tracked where
  provisioned user alias_ hmem := Or.inl (h.provisioned user alias_ hmem)
  coming := by simp [h.console]
  listed := by simp [h.erasures]

end Erasure

namespace Sample

/-- The server of the samples: the user has nothing yet. -/
def freshServer : Erasure where
  users := Table.empty.put user
  console := { applications := .empty }

theorem freshServer_start : freshServer.Start where
  complete := by simp [freshServer, Table.empty]
  applications := by simp [freshServer, Table.empty]
  devices := by simp [freshServer, Table.empty]
  lastUser := by simp [freshServer, Table.empty]
  provisioned := by simp [freshServer]
  console := rfl
  requests := rfl
  erasures := rfl
  erased := rfl

def phone : DeviceData where
  pushToken := "push-token-of-the-phone"
  pushToken_length := by decide
  previousPushToken_length := DeviceData.blank_previousPushToken
  deviceName_length := DeviceData.blank_deviceName

/-- An application, a device and a session, then the erasure, while a second application is
created. -/
def erasureInTime : List ErasureAction :=
  [.console (.request 0 0 (.create 1 "first" "" .bare)), .console (.advance 0 {}),
    .console (.advance 0 {}), .upsert 0 1 phone, .advance 0 0, .login 0 "a@b" "first-password",
    .advance 0 0, .console (.request 0 0 (.create 1 "second" "" secondDraw)), .erase 0 1,
    .advanceErasure 0, .console (.advance 0 { draw := secondDraw }), .advanceErasure 0,
    .console (.advance 0 {}), .advanceErasure 0, .advanceErasure 0, .advanceErasure 0,
    .advanceErasure 0, .advanceErasure 0]

/-- An identification, a creation and a login that are under way when the erasure begins, and land
behind its lists. -/
def erasureTooEarly : List ErasureAction :=
  [.upsert 0 1 phone, .console (.request 0 0 (.create 1 "first" "" .bare)), .erase 0 1,
    .advanceErasure 0, .advanceErasure 0, .console (.advance 0 {}), .console (.advance 0 {}),
    .advanceErasure 0, .advance 0 0, .login 0 "a@b" "first-password", .advance 0 0,
    .advanceErasure 0, .advanceErasure 0]

/-- Only the requests numbered `0` are used. -/
def UsesZero : ErasureAction → Prop
  | .console a => a.rid = 0
  | .login rid _ _ | .refresh rid _ | .upsert rid _ _ | .advance rid _ | .erase rid _
  | .advanceErasure rid => rid = 0

instance decidableUsesZero : ∀ a, Decidable (UsesZero a)
  | .console _ | .login _ _ _ | .refresh _ _ | .upsert _ _ _ | .advance _ _ | .erase _ _
  | .advanceErasure _ => by unfold UsesZero; infer_instance

/-- The erasure `0` is not about the user, or has not listed yet what `listed` reads. -/
def unlisted {α : Type} (s : Erasure) (listed : ErasureStage → Option α) (user : ℕ) : Bool :=
  (s.erasures 0).all fun stage => stage.user != user || (listed stage).isNone

/-- The next statement of a request of the console keeps clear of the erasure. -/
def clearConsole (s : Erasure) : ConsoleProcess → Bool
  | .saving object purpose attempts =>
    s.console.aligned (.saving object purpose attempts) &&
      (!purpose.allocates || unlisted s ErasureStage.aliases object.ownerId)
  | .deleting object => s.console.aligned (.deleting object)
  | .provisioning _ _ | .deprovisioning _ => true

/-- The next statement of a request keeps clear of the erasure. -/
def clearRequest (s : Erasure) : UserRequest → Bool
  | .upserting user _ => unlisted s ErasureStage.devices user
  | .issuing _ | .refreshing _ _ | .recording _ => true

/-- The next statement lists the tokens. -/
def sweeps : ErasureStage → Bool
  | .sweeping _ => true
  | _ => false

/-- An action of the requests `0` that keeps clear of the erasure. -/
def Clear (s : Erasure) (a : ErasureAction) : Prop :=
  UsesZero a ∧
    match a with
    | .console (.advance _ _) => (s.console.processes 0).all (clearConsole s) = true
    | .advance _ _ => (s.requests 0).all (clearRequest s) = true
    | .login _ email password =>
      (signInPlatform.authenticateLogin s.users email password).all
        (fun u => unlisted s ErasureStage.swept u.id) = true
    | .refresh _ token =>
      (findUsable s.users s.tokens token).all
        (fun x => unlisted s ErasureStage.swept x.userId) = true
    | .advanceErasure _ => ((s.requests 0).isNone || !(s.erasures 0).any sweeps) = true
    | _ => True

instance decidableClear (s : Erasure) : ∀ a, Decidable (Clear s a)
  | .console (.request _ _ _) | .console (.advance _ _) | .login _ _ _ | .refresh _ _
  | .upsert _ _ _ | .advance _ _ | .erase _ _ | .advanceErasure _ => by
    unfold Clear
    infer_instance

/-- The other requests are idle. -/
def OthersRest (s : Erasure) : Prop :=
  ∀ other, other ≠ 0 → s.console.processes other = none ∧ s.requests other = none ∧
    s.erasures other = none

theorem OthersRest.step {s t : Erasure} {a : ErasureAction} (hs : s.Sound)
    (h : OthersRest s) (hok : UsesZero a) (hstep : s.step signInPlatform a = some t) :
    OthersRest t := by
  intro other hother
  obtain ⟨hconsole, hrequests, herasures⟩ := h other hother
  have hset : ∀ {L : Type} {p : Pool L} {l : Option L}, p other = none → p.set 0 l other = none :=
    fun hp => (Pool.set_of_ne _ _ hother).trans hp
  cases a with
  | console a =>
    cases a with
    | request rid now r =>
      obtain rfl : rid = 0 := hok
      simp only [Erasure.step] at hstep
      split at hstep
      · next hcan =>
        obtain rfl := Option.some.inj hstep
        obtain ⟨-, hsteps⟩ := Erasure.begin_steps hs.wellFormed hcan now r
        exact ⟨(hsteps.processes_of_ne hother).trans hconsole, hrequests, herasures⟩
      · simp at hstep
    | advance rid input =>
      obtain rfl : rid = 0 := hok
      obtain ⟨p, hp, rfl⟩ := Option.map_eq_some_iff.mp hstep
      have hsteps := (Erasure.advanceConsole_moves hs.wellFormed input hp).1
      refine ⟨(hsteps.processes_of_ne hother).trans hconsole, ?_, ?_⟩
      · rw [Erasure.requests_advanceConsole]
        exact hrequests
      · rw [Erasure.erasures_advanceConsole]
        exact herasures
  | login rid | refresh rid | upsert rid =>
    obtain rfl : rid = 0 := hok
    simp only [Erasure.step] at hstep
    split at hstep
    · obtain rfl := Option.some.inj hstep
      exact ⟨hconsole, hset hrequests, herasures⟩
    · simp at hstep
  | erase rid =>
    obtain rfl : rid = 0 := hok
    simp only [Erasure.step] at hstep
    split at hstep
    · obtain rfl := Option.some.inj hstep
      exact ⟨hconsole, hrequests, hset herasures⟩
    · simp at hstep
  | advance rid now =>
    obtain rfl : rid = 0 := hok
    obtain ⟨p, -, hadvance⟩ := Option.bind_eq_some_iff.mp hstep
    cases p with
    | issuing user =>
      obtain rfl := Option.some.inj hadvance
      split <;> exact ⟨hconsole, hset hrequests, herasures⟩
    | refreshing | recording =>
      obtain rfl := Option.some.inj hadvance
      exact ⟨hconsole, hset hrequests, herasures⟩
    | upserting user data =>
      simp only [Erasure.advanceRequest] at hadvance
      split at hadvance
      · simp at hadvance
      · split at hadvance
        all_goals
          obtain rfl := Option.some.inj hadvance
          exact ⟨hconsole, hset hrequests, herasures⟩
  | advanceErasure rid =>
    obtain rfl : rid = 0 := hok
    obtain ⟨stage, -, rfl⟩ := Option.map_eq_some_iff.mp hstep
    cases stage with
    | sweeping | listing | deletingDevices | cascading =>
      exact ⟨hconsole, hrequests, hset herasures⟩
    | afterCommit user aliases =>
      cases aliases with
      | nil | cons => exact ⟨hconsole, hrequests, hset herasures⟩

theorem othersRest_preserves :
    (erasure signInPlatform).Preserves (fun _ a => UsesZero a) fun s => s.Sound ∧ OthersRest s :=
  ((Erasure.sound_preserves signInPlatform).mono fun _ _ _ => trivial).and
    fun _ _ _ hs h hok hstep => h.step hs hok hstep

theorem freshServer_othersRest : OthersRest freshServer := fun _ _ => ⟨rfl, rfl, rfl⟩

theorem unlisted_spec {α : Type} {s : Erasure} {listed : ErasureStage → Option α} {user : ℕ}
    (hrest : OthersRest s) (h : unlisted s listed user = true) {other : ℕ} {stage : ErasureStage}
    (hstage : s.erasures other = some stage) (hsame : stage.user = user) :
    listed stage = none := by
  by_cases hother : other = 0
  · subst hother
    simpa [unlisted, hstage, hsame] using h
  · rw [(hrest other hother).2.2] at hstage
    simp at hstage

theorem OthersRest.keeps {s : Erasure} {a : ErasureAction} (hrest : OthersRest s)
    (h : Clear s a) :
    s.KeepsAliases a ∧ s.KeepsDevices a ∧ s.KeepsTokens signInPlatform a := by
  obtain ⟨hzero, hclear⟩ := h
  cases a with
  | console a =>
    cases a with
    | request rid now r => exact ⟨trivial, trivial, trivial⟩
    | advance rid input =>
      obtain rfl : rid = 0 := hzero
      refine ⟨⟨fun object purpose attempts hp => ?_, fun object hp => ?_⟩, trivial, trivial⟩
      · simp only [hp, Option.all_some, clearConsole, Bool.and_eq_true, Bool.or_eq_true,
          Bool.not_eq_true'] at hclear
        refine ⟨hclear.1, fun hallocates other stage hstage hsame => ?_⟩
        rcases hclear.2 with hnone | hunlisted
        · simp [hallocates] at hnone
        · exact unlisted_spec hrest hunlisted hstage hsame
      · simpa [hp, clearConsole] using hclear
  | login rid email password =>
    refine ⟨trivial, trivial, fun u hu other stage hstage hsame => ?_⟩
    simp only [hu, Option.all_some] at hclear
    exact unlisted_spec hrest hclear hstage hsame
  | refresh rid token =>
    refine ⟨trivial, trivial, fun x hx other stage hstage hsame => ?_⟩
    simp only [hx, Option.all_some] at hclear
    exact unlisted_spec hrest hclear hstage hsame
  | upsert | erase => exact ⟨trivial, trivial, trivial⟩
  | advance rid now =>
    obtain rfl : rid = 0 := hzero
    refine ⟨trivial, fun user data hp other stage hstage hsame => ?_, trivial⟩
    simp only [hp, Option.all_some, clearRequest] at hclear
    exact unlisted_spec hrest hclear hstage hsame
  | advanceErasure rid =>
    obtain rfl : rid = 0 := hzero
    refine ⟨trivial, trivial, fun user hstage other p hp => ?_⟩
    have hidle : s.requests 0 = none := by simpa [hstage, sweeps] using hclear
    by_cases hother : other = 0
    · simp [hother, hidle] at hp
    · simp [(hrest other hother).2.1] at hp

/-- The requests numbered `0` are over. -/
def allOver (s : Erasure) : Bool :=
  (s.console.processes 0).isNone && (s.requests 0).isNone && (s.erasures 0).isNone

theorem OthersRest.ended {s : Erasure} (hrest : OthersRest s) (hover : allOver s = true)
    (user : ℕ) : s.Ended user := by
  simp only [allOver, Bool.and_eq_true, Option.isNone_iff_eq_none] at hover
  obtain ⟨⟨hconsole, hrequests⟩, herasures⟩ := hover
  have hidle : ∀ {L : Type} {pool : Pool L}, pool 0 = none → (∀ i, i ≠ 0 → pool i = none) →
      ∀ i p, pool i ≠ some p := by
    intro L pool hzero hothers i p hp
    by_cases hi : i = 0
    · simp [hi, hzero] at hp
    · simp [hothers i hi] at hp
  exact
    { console := fun i p hp => absurd hp (hidle hconsole (fun j hj => (hrest j hj).1) i p)
      requests := fun i p hp => absurd hp (hidle hrequests (fun j hj => (hrest j hj).2.1) i p)
      erasures := fun i p hp => absurd hp (hidle herasures (fun j hj => (hrest j hj).2.2) i p) }

end Sample

end PushIT
