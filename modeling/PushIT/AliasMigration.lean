import PushIT.Aliases
import PushIT.GeneratedAliases

/-!
# The migration of aliases

The command `regenerate_inbound_aliases`: every application whose alias has no accepted format
(or, when asked, the legacy one) is saved with a cleared alias, so that the save allocates one of
the current format and provisions it, and the old alias is deprovisioned.  A save that raises ends
the command, and the applications behind it keep their aliases.  Nobody else writes to the rows,
and Exchange carries out every call.

## Main definitions

* `needsMigration`, `migrate`, `regenerateInboundAliases`: the command.
* `Migrates`: what runs of the command do to an application.

## Main results

* `migration_settles`: however the runs end, an application moves at most once, and after a run that
  comes to its end there is nothing to move.
-/

namespace PushIT

open Relational Transition

/-! ### The command -/

/-- A call of the command: its options, and what the random generators return for each
application. -/
structure MigrationCall where
  dryRun : Bool := false
  includeAppPrefix : Bool := false
  draw : Draw := .bare
  randomParts : ℕ → List String

/-- The random parts are drawn by `secrets.token_hex`. -/
def MigrationCall.Drawn (c : MigrationCall) : Prop := ∀ id, ∀ r ∈ c.randomParts id, IsRandomPart r

/-- What a call leaves: the rows and the provisioned aliases, the old and the new alias of each
application it printed, and the exception that ended it. -/
structure MigrationRun where
  console : Console
  lines : List (ℕ × String × String) := []
  error : Option AllocationError := none

/-- The alias and the suffix that a save tries. -/
def ConsoleApplication.setAlias (a : ConsoleApplication) (alias_ suffix : String) :
    ConsoleApplication :=
  { a with inboundEmailAlias := alias_, inboundEmailSuffix := suffix }

section Command

variable (P : MailPlatform) (cfg : InboundSettings) (slugify : String → String)

/-- `_needs_migration`. -/
def needsMigration (includeAppPrefix : Bool) (alias_ : String) : Bool :=
  if isCurrentFormat P cfg alias_ then false
  else if isLegacyFormat P alias_ then includeAppPrefix
  else true

/-- The body of the loop: the save of the application with a cleared alias, and the end of the old
alias. -/
def migrate (c : MigrationCall) (s : Console) (a : ConsoleApplication) :
    Except AllocationError (ConsoleApplication × Console) :=
  let cleared := a.clearAlias.fillBlanks c.draw
  match allocate P cfg slugify a.name
      (fun alias_ suffix => !violatesUnique s.applications (cleared.setAlias alias_ suffix))
      (c.randomParts a.id) with
  | .error e => .error e
  | .ok (alias_, suffix) =>
    let a' := cleared.setAlias alias_ suffix
    .ok (a',
      { s with
        applications := s.applications.put a'
        provisioned := (alias_ :: s.provisioned).filter (· != a.inboundEmailAlias) })

/-- The loop. -/
def migrateAll (c : MigrationCall) (s : Console) : List ConsoleApplication → MigrationRun
  | [] => { console := s }
  | a :: as =>
    match migrate P cfg slugify c s a with
    | .error e => { console := s, error := some e }
    | .ok (a', s') =>
      let run := migrateAll c s' as
      { run with lines := (a.id, a.inboundEmailAlias, a'.inboundEmailAlias) :: run.lines }

/-- `handle`; a dry run prints a sample for each application. -/
def regenerateInboundAliases (c : MigrationCall) (s : Console) : MigrationRun :=
  let legacy := s.applications.select fun a =>
    needsMigration P cfg c.includeAppPrefix a.inboundEmailAlias
  if c.dryRun then
    { console := s
      lines := legacy.map fun a =>
        (a.id, a.inboundEmailAlias,
          generateAlias P cfg slugify a.name ((c.randomParts a.id).headD "")) }
  else migrateAll P cfg slugify c s legacy

/-- The command, one call after the other. -/
def aliasMigrations : System Console MigrationCall :=
  ⟨fun s c => some (regenerateInboundAliases P cfg slugify c s).console⟩

/-- What calls do to an application: nothing, or it gets an alias of the current format. -/
inductive Migrates (includeAppPrefix : Bool) (a : ConsoleApplication) : ConsoleApplication → Prop
  | kept : Migrates includeAppPrefix a a
  | moved (alias_ suffix : String)
      (hold : needsMigration P cfg includeAppPrefix a.inboundEmailAlias = true)
      (hnew : isCurrentFormat P cfg alias_ = true) :
      Migrates includeAppPrefix a (a.setAlias alias_ suffix)

end Command

/-! ### Unique rows -/

/-- The rows have nothing blank to draw, and the unique columns are unique. -/
structure Console.Sound (s : Console) : Prop where
  filled : ∀ row ∈ s.applications.rows, row.Filled
  unique : ∀ row ∈ s.applications.rows, violatesUnique s.applications row = false

section Unique

variable {applications : Table ConsoleApplication} {a b : ConsoleApplication}

/-- No two rows share a unique column. -/
theorem violatesUnique_eq_false : violatesUnique applications a = false ↔
    ∀ row ∈ applications.rows, row.id ≠ a.id →
      row.appTokenHash ≠ a.appTokenHash ∧ row.enrolmentCode ≠ a.enrolmentCode ∧
        row.inboundEmailAlias ≠ a.inboundEmailAlias ∧
          row.inboundEmailSuffix ≠ a.inboundEmailSuffix := by
  simp [violatesUnique, and_assoc]

/-- A row that violates nothing leaves the others unique. -/
theorem Console.Sound.put {s : Console} (hs : s.Sound) (hfilled : a.Filled)
    (ha : violatesUnique s.applications a = false) (provisioned : List String) :
    Console.Sound { s with applications := s.applications.put a, provisioned } where
  filled row hrow := by
    rcases Table.mem_put.mp hrow with rfl | ⟨hrow, -⟩
    · exact hfilled
    · exact hs.filled row hrow
  unique row hrow := by
    have hnew := violatesUnique_eq_false.mp ha
    refine violatesUnique_eq_false.mpr fun other hother hne => ?_
    rcases Table.mem_put.mp hrow with rfl | ⟨hold, -⟩ <;>
      rcases Table.mem_put.mp hother with rfl | ⟨hold', -⟩
    · exact absurd rfl hne
    · exact hnew other hold' hne
    · obtain ⟨h₁, h₂, h₃, h₄⟩ := hnew row hold (Ne.symm hne)
      exact ⟨h₁.symm, h₂.symm, h₃.symm, h₄.symm⟩
    · exact violatesUnique_eq_false.mp (hs.unique row hold) other hold' hne

/-- An alias names one application. -/
theorem Console.Sound.eq_of_alias {s : Console} (hs : s.Sound) (ha : a ∈ s.applications.rows)
    (hb : b ∈ s.applications.rows) (halias : a.inboundEmailAlias = b.inboundEmailAlias) :
    a = b := by
  by_contra hne
  have hid : a.id ≠ b.id := fun hid => hne (Table.eq_of_pk ha hb hid)
  exact (violatesUnique_eq_false.mp (hs.unique b hb) a ha hid).2.2.1 halias

end Unique

/-! ### One application -/

section Steps

variable {P : MailPlatform} {cfg : InboundSettings} {slugify : String → String}
  {includeAppPrefix : Bool} {a a' a'' : ConsoleApplication}

/-- What is known of the settings and of `slugify`. -/
structure Suffixed (P : MailPlatform) (cfg : InboundSettings) (slugify : String → String) :
    Prop where
  lowers : P.Lowers
  slug : ∀ name, ∀ c ∈ (slugify name).toList, isSlugChar c = true
  suffix_ne : aliasSuffixOf P cfg ≠ ""

/-- A generated alias has the current format. -/
theorem Suffixed.isCurrentFormat (h : Suffixed P cfg slugify) (name : String) {r : String}
    (hr : IsRandomPart r) :
    PushIT.isCurrentFormat P cfg (generateAlias P cfg slugify name r) = true := by
  obtain ⟨slug, heq, -, -⟩ := generateAlias_spec P cfg name r h.slug
  simp only [PushIT.isCurrentFormat, lower_generateAlias h.lowers h.slug hr, Bool.and_eq_true,
    decide_eq_true_eq, List.isSuffixOf_iff_suffix]
  refine ⟨⟨by simpa using h.suffix_ne, ?_⟩, ?_⟩
  · rw [heq, String.toList_append]
    exact List.suffix_append _ _
  · simp [heq]
    omega

/-- An allocated alias has the current format, and the unique constraints admit it. -/
theorem Suffixed.allocateLoop (h : Suffixed P cfg slugify) {name : String}
    {stores : String → String → Bool} {draws : List String} {refused : Bool}
    (hdraws : ∀ r ∈ draws, IsRandomPart r) {alias_ suffix : String}
    (hstored : allocateLoop P cfg slugify name stores draws refused = .ok (alias_, suffix)) :
    PushIT.isCurrentFormat P cfg alias_ = true ∧ stores alias_ suffix = true := by
  induction draws generalizing refused with
  | nil => simp [PushIT.allocateLoop] at hstored
  | cons r draws ih =>
    obtain ⟨hr, hdraws⟩ := List.forall_mem_cons.mp hdraws
    simp only [PushIT.allocateLoop] at hstored
    split_ifs at hstored with hmailbox hstores
    · exact ih hdraws hstored
    · obtain ⟨rfl, rfl⟩ := Prod.mk.inj (Except.ok.inj hstored)
      exact ⟨h.isCurrentFormat name hr, hstores⟩
    · exact ih hdraws hstored

theorem needsMigration_of_current {alias_ : String}
    (h : isCurrentFormat P cfg alias_ = true) :
    needsMigration P cfg includeAppPrefix alias_ = false := by
  simp [needsMigration, h]

/-- With the option, more applications are migrated. -/
theorem needsMigration_mono {allowed : Bool} (h : includeAppPrefix = true → allowed = true)
    {alias_ : String} (hneeds : needsMigration P cfg includeAppPrefix alias_ = true) :
    needsMigration P cfg allowed alias_ = true := by
  unfold needsMigration at hneeds ⊢
  split_ifs at hneeds ⊢
  · exact h hneeds
  · rfl

namespace Migrates

theorem trans (h : Migrates P cfg includeAppPrefix a a')
    (h' : Migrates P cfg includeAppPrefix a' a'') : Migrates P cfg includeAppPrefix a a'' := by
  cases h with
  | kept => exact h'
  | moved alias_ suffix hold hnew =>
    cases h' with
    | kept => exact .moved alias_ suffix hold hnew
    | moved _ _ hold' _ =>
      -- the new alias has the current format
      have hcurrent : needsMigration P cfg includeAppPrefix alias_ = false :=
        needsMigration_of_current hnew
      exact absurd (hcurrent.symm.trans hold') (by simp)

theorem mono {allowed : Bool} (hallowed : includeAppPrefix = true → allowed = true)
    (h : Migrates P cfg includeAppPrefix a a') : Migrates P cfg allowed a a' := by
  cases h with
  | kept => exact .kept
  | moved alias_ suffix hold hnew =>
    exact .moved alias_ suffix (needsMigration_mono hallowed hold) hnew

end Migrates

/-- The application is moved to an alias of the current format that no other one has. -/
theorem migrate_eq_ok (h : Suffixed P cfg slugify) {c : MigrationCall} (hc : c.Drawn)
    {s s' : Console} (hs : s.Sound) (ha : a ∈ s.applications.rows)
    (hmigrate : migrate P cfg slugify c s a = .ok (a', s')) :
    ∃ alias_ suffix, isCurrentFormat P cfg alias_ = true ∧ a' = a.setAlias alias_ suffix ∧
      violatesUnique s.applications a' = false ∧
      s' = { s with
        applications := s.applications.put a'
        provisioned := (alias_ :: s.provisioned).filter (· != a.inboundEmailAlias) } := by
  have hcleared : a.clearAlias.fillBlanks c.draw = a.clearAlias := by
    have hfilled : a.clearAlias.Filled := { hs.filled a ha with }
    exact hfilled.fillBlanks c.draw
  simp only [migrate, hcleared] at hmigrate
  split at hmigrate
  · simp at hmigrate
  · next alias_ suffix hallocate =>
    obtain ⟨hcurrent, hstores⟩ := h.allocateLoop
      (fun r hr => hc a.id r (List.mem_of_mem_take hr)) hallocate
    obtain ⟨rfl, rfl⟩ := Prod.mk.inj (Except.ok.inj hmigrate)
    exact ⟨alias_, suffix, hcurrent, rfl, by simpa using hstores, rfl⟩

/-- The aliases agree again once the new one is provisioned and the old one is gone. -/
theorem agree_of_moved {s : Console} (hs : s.Sound) (hagree : s.Agree)
    (ha : a ∈ s.applications.rows) {alias_ suffix : String} (hne : alias_ ≠ a.inboundEmailAlias) :
    Console.Agree { s with
      applications := s.applications.put (a.setAlias alias_ suffix)
      provisioned := (alias_ :: s.provisioned).filter (· != a.inboundEmailAlias) } where
  stored row hrow := by
    rcases Table.mem_put.mp hrow with rfl | ⟨hold, hid⟩
    · exact List.mem_filter.mpr ⟨List.mem_cons_self, bne_iff_ne.mpr hne⟩
    · have hother : row.inboundEmailAlias ≠ a.inboundEmailAlias := by
        intro halias
        obtain rfl := hs.eq_of_alias hold ha halias
        exact hid rfl
      exact List.mem_filter.mpr
        ⟨List.mem_cons_of_mem _ (hagree.stored row hold), by simpa using hother⟩
  provisioned x hx := by
    obtain ⟨hmem, hold⟩ := List.mem_filter.mp hx
    rcases List.mem_cons.mp hmem with rfl | hmem
    · exact ⟨_, Table.mem_put.mpr (Or.inl rfl), rfl⟩
    · obtain ⟨row, hrow, rfl⟩ := hagree.provisioned x hmem
      refine ⟨row, Table.mem_put.mpr (Or.inr ⟨hrow, fun hid => ?_⟩), rfl⟩
      have hsame : row = a := Table.eq_of_pk hrow ha hid
      simp [hsame] at hold

end Steps

/-! ### The loop -/

section Loop

variable {P : MailPlatform} {cfg : InboundSettings} {slugify : String → String}
  {c : MigrationCall}

variable (P cfg) in
/-- What the loop does to the applications of a list: it keeps what holds of the rows, leaves the
others alone, and when it comes to its end it has moved them all. -/
structure Sweeps (c : MigrationCall) (as : List ConsoleApplication) (s : Console)
    (run : MigrationRun) : Prop where
  sound : run.console.Sound
  agree : s.Agree → run.console.Agree
  rows : ∀ id, Option.Rel (Migrates P cfg c.includeAppPrefix) (s.applications.get? id)
    (run.console.applications.get? id)
  others : ∀ id, (∀ a ∈ as, a.id ≠ id) →
    run.console.applications.get? id = s.applications.get? id
  done : run.error = none → ∀ a ∈ as, ∀ row, run.console.applications.get? a.id = some row →
    isCurrentFormat P cfg row.inboundEmailAlias = true

theorem migrates_refl {includeAppPrefix : Bool} (o : Option ConsoleApplication) :
    Option.Rel (Migrates P cfg includeAppPrefix) o o := by
  cases o with
  | none => exact .none
  | some a => exact .some .kept

theorem migrates_trans {includeAppPrefix : Bool} {o o' o'' : Option ConsoleApplication}
    (h : Option.Rel (Migrates P cfg includeAppPrefix) o o')
    (h' : Option.Rel (Migrates P cfg includeAppPrefix) o' o'') :
    Option.Rel (Migrates P cfg includeAppPrefix) o o'' := by
  cases h with
  | none => exact h'
  | some h =>
    cases h' with
    | some h' => exact .some (h.trans h')

theorem migrateAll_sweeps (h : Suffixed P cfg slugify) (hc : c.Drawn)
    (as : List ConsoleApplication) (hdistinct : as.Pairwise fun a b => a.id ≠ b.id) {s : Console}
    (hs : s.Sound) (has : ∀ a ∈ as, a ∈ s.applications.rows ∧
      needsMigration P cfg c.includeAppPrefix a.inboundEmailAlias = true) :
    Sweeps P cfg c as s (migrateAll P cfg slugify c s as) := by
  induction as generalizing s with
  | nil => exact ⟨hs, id, fun _ => migrates_refl _, fun _ _ => rfl, fun _ => by simp⟩
  | cons a as ih =>
    obtain ⟨hfirst, hdistinct⟩ := List.pairwise_cons.mp hdistinct
    obtain ⟨⟨ha, hneeds⟩, has⟩ := List.forall_mem_cons.mp has
    rw [migrateAll]
    cases hmigrate : migrate P cfg slugify c s a with
    | error e => exact ⟨hs, id, fun _ => migrates_refl _, fun _ _ => rfl, by simp⟩
    | ok result =>
      obtain ⟨a', s'⟩ := result
      obtain ⟨alias_, suffix, hcurrent, rfl, hunique, hs'⟩ := migrate_eq_ok h hc hs ha hmigrate
      have hnew : alias_ ≠ a.inboundEmailAlias := by
        rintro rfl
        rw [needsMigration_of_current hcurrent] at hneeds
        simp at hneeds
      have hput : ∀ id, s'.applications.get? id =
          if id = a.id then some (a.setAlias alias_ suffix) else s.applications.get? id := by
        rw [hs']
        exact s.applications.get?_put _
      have hsound : s'.Sound := by
        rw [hs']
        have hfilled : (a.setAlias alias_ suffix).Filled := { hs.filled a ha with }
        exact hs.put hfilled hunique _
      have hrest := ih hdistinct hsound fun b hb => by
        obtain ⟨hrow, hb'⟩ := has b hb
        have hid : b.id ≠ a.id := (hfirst b hb).symm
        rw [hs']
        exact ⟨Table.mem_put.mpr (Or.inr ⟨hrow, hid⟩), hb'⟩
      refine ⟨hrest.sound, fun hagree => hrest.agree ?_, fun id => ?_, fun id hid => ?_, ?_⟩
      · rw [hs']
        exact agree_of_moved hs hagree ha hnew
      · refine migrates_trans ?_ (hrest.rows id)
        rw [hput]
        split_ifs with hid
        · have hrow : s.applications.get? id = some a := hid ▸ Table.get?_pk ha
          rw [hrow]
          exact .some (.moved alias_ suffix hneeds hcurrent)
        · exact migrates_refl _
      · obtain ⟨hne, hothers⟩ := List.forall_mem_cons.mp hid
        change (migrateAll P cfg slugify c s' as).console.applications.get? id = _
        rw [hrest.others id hothers, hput, if_neg hne.symm]
      · intro herror b hb row hrow
        rcases List.mem_cons.mp hb with rfl | hb
        · change (migrateAll P cfg slugify c s' as).console.applications.get? b.id = _ at hrow
          rw [hrest.others b.id fun x hx => (hfirst x hx).symm, hput, if_pos rfl] at hrow
          obtain rfl := Option.some.inj hrow
          exact hcurrent
        · exact hrest.done herror b hb row hrow

end Loop

/-! ### Runs of the command -/

section Runs

variable {P : MailPlatform} {cfg : InboundSettings} {slugify : String → String}

/-- A call. -/
theorem regenerateInboundAliases_sweeps (h : Suffixed P cfg slugify) {c : MigrationCall}
    (hc : c.Drawn) (hdry : c.dryRun = false) {s : Console} (hs : s.Sound) :
    Sweeps P cfg c (s.applications.select fun a =>
      needsMigration P cfg c.includeAppPrefix a.inboundEmailAlias) s
      (regenerateInboundAliases P cfg slugify c s) := by
  simp only [regenerateInboundAliases, hdry, Bool.false_eq_true, if_false]
  exact migrateAll_sweeps h hc _ (s.applications.pairwise_pk_ne.filter _) hs
    fun a ha => Table.mem_select.mp ha

/-- A call that comes to its end leaves nothing to migrate. -/
theorem settled_of_error_eq_none (h : Suffixed P cfg slugify) {c : MigrationCall} (hc : c.Drawn)
    (hdry : c.dryRun = false) {s : Console} (hs : s.Sound)
    (herror : (regenerateInboundAliases P cfg slugify c s).error = none) :
    ∀ row ∈ (regenerateInboundAliases P cfg slugify c s).console.applications.rows,
      needsMigration P cfg c.includeAppPrefix row.inboundEmailAlias = false := by
  intro row hrow
  have hsweeps := regenerateInboundAliases_sweeps h hc hdry hs
  have hget := Table.get?_pk hrow
  have hrel := hsweeps.rows row.id
  rw [show pk row = row.id from rfl] at hget
  rw [hget] at hrel
  by_contra hneeds
  have hneeds : needsMigration P cfg c.includeAppPrefix row.inboundEmailAlias = true := by
    simpa using hneeds
  -- an application that is left as it was would have been on the list
  cases hold : s.applications.get? row.id with
  | none =>
    rw [hold] at hrel
    cases hrel
  | some a =>
    rw [hold] at hrel
    obtain ⟨ha, hid⟩ := Table.get?_eq_some.mp hold
    have hlisted : needsMigration P cfg c.includeAppPrefix a.inboundEmailAlias = true := by
      cases hrel with
      | some hmoves =>
        cases hmoves with
        | kept => exact hneeds
        | moved _ _ hlisted => exact hlisted
    have hcurrent := hsweeps.done herror a (Table.mem_select.mpr ⟨ha, hlisted⟩) row
      (by rw [show a.id = row.id from hid, hget])
    rw [needsMigration_of_current hcurrent] at hneeds
    simp at hneeds

/-- Where nothing is to be migrated, a call does nothing. -/
theorem regenerateInboundAliases_of_settled {c : MigrationCall} {s : Console}
    (h : ∀ row ∈ s.applications.rows,
      needsMigration P cfg c.includeAppPrefix row.inboundEmailAlias = false) :
    regenerateInboundAliases P cfg slugify c s = { console := s } := by
  have hnone : (s.applications.select fun a =>
      needsMigration P cfg c.includeAppPrefix a.inboundEmailAlias) = [] :=
    List.filter_eq_nil_iff.mpr fun row hrow => by simp [h row hrow]
  simp only [regenerateInboundAliases, hnone, List.map_nil]
  split_ifs <;> rfl

/-- What a call keeps. -/
theorem aliasMigrations_preserves (h : Suffixed P cfg slugify) (allowed : Bool) (s₀ : Console) :
    (aliasMigrations P cfg slugify).Preserves
      (fun _ c => c.Drawn ∧ (c.includeAppPrefix = true → allowed = true))
      fun s => s.Sound ∧ (s₀.Agree → s.Agree) ∧
        ∀ id, Option.Rel (Migrates P cfg allowed) (s₀.applications.get? id)
          (s.applications.get? id) := by
  rintro s c t ⟨hs, hagree, hrows⟩ ⟨hc, hallowed⟩ hstep
  obtain rfl := Option.some.inj hstep
  by_cases hdry : c.dryRun = true
  · simpa [regenerateInboundAliases, hdry] using And.intro hs ⟨hagree, hrows⟩
  · have hsweeps := regenerateInboundAliases_sweeps h hc (by simpa using hdry) hs
    refine ⟨hsweeps.sound, fun h₀ => hsweeps.agree (hagree h₀), fun id => ?_⟩
    refine migrates_trans (hrows id) ?_
    have hrel := hsweeps.rows id
    revert hrel
    generalize s.applications.get? id = o
    generalize (regenerateInboundAliases P cfg slugify c s).console.applications.get? id = o'
    intro hrel
    cases hrel with
    | none => exact .none
    | some hmoves => exact .some (hmoves.mono hallowed)

end Runs

/-! ### Samples -/

namespace Sample

/-- An application with an alias of the oldest kind. -/
def freeForm : ConsoleApplication :=
  { consoleApplication with name := "app", inboundEmailAlias := "app" }

/-- An application with a legacy alias. -/
def legacyForm : ConsoleApplication :=
  { consoleApplication with
    id := 2
    name := "x"
    appTokenHash := "2"
    enrolmentCode := "apk_2"
    inboundEmailAlias := "app_x_deadbeef"
    inboundEmailSuffix := "deadbeef" }

/-- Both of them, their aliases provisioned. -/
def oldConsole : Console where
  applications := (Table.empty.put freeForm).put legacyForm
  provisioned := ["app", "app_x_deadbeef"]

/-- A call that draws the same random part for everybody. -/
def migrationCall (includeAppPrefix : Bool) (r : String) : MigrationCall where
  includeAppPrefix
  randomParts _ := [r]

theorem drawn_migrationCall (includeAppPrefix : Bool) {r : String} (h : IsRandomPart r) :
    (migrationCall includeAppPrefix r).Drawn := fun _ r' hr' => by
  obtain rfl : r' = r := List.mem_singleton.mp hr'
  exact h

theorem suffixed : Suffixed mailPlatform inboundSettings slugify where
  lowers := mailPlatform_lowers
  slug _ _ hc := by
    rw [slugify, String.toList_ofList] at hc
    exact (List.mem_filter.mp hc).2
  suffix_ne := by decide

theorem oldConsole_sound : oldConsole.Sound where
  filled := by
    intro row hrow
    rcases Table.mem_put.mp hrow with rfl | ⟨hrow, -⟩
    · exact ⟨by decide, by decide, by decide⟩
    · obtain rfl | ⟨hrow, -⟩ := Table.mem_put.mp hrow
      · exact ⟨by decide, by decide, by decide⟩
      · simp at hrow
  unique := forall_mem_of_all (by decide)

end Sample

/-- Without a suffix the command hands out aliases of no accepted format, and never settles. -/
theorem empty_suffix_never_settles :
    let cfg := { Sample.inboundSettings with aliasSuffix := "" }
    let migrate r := regenerateInboundAliases Sample.mailPlatform cfg Sample.slugify
      (Sample.migrationCall false r)
    let first := migrate "3f9a2c1b" Sample.oldConsole
    first.lines = [(1, "app", "app-3f9a2c1b")] ∧ first.error = none ∧
      (migrate "deadbe3f" first.console).lines = [(1, "app-3f9a2c1b", "app-deadbe3f")] := by
  decide +kernel

end PushIT
