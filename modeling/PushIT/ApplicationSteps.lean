import PushIT.Applications

/-!
# What the console's requests do

The rows of applications carry no blank credential and no blank alias, since every `save` fills
them.  Under this invariant a save writes in one of four ways: a PATCH writes the instance as a
whole, a save with `update_fields` writes its columns, and a creation and a regeneration write an
instance with a freshly allocated alias.

## Main definitions

* `Console.WellFormed`: the invariant of the rows and the requests.
* `Console.Steps`: the effects of one action.

## Main results

* `Console.step_cases`: nothing else happens.
* `Console.Steps.wellFormed`: every action keeps the invariant.
-/

namespace PushIT

open Relational Transition

/-! ### Complete rows -/

namespace ConsoleApplication

/-- `save` has nothing to draw but an alias. -/
structure Filled (a : ConsoleApplication) : Prop where
  appTokenHash : a.appTokenHash ≠ ""
  enrolmentCode : a.enrolmentCode ≠ ""
  webhookSecret : a.webhookSecret ≠ ""

/-- `save` has nothing to draw. -/
structure Complete (a : ConsoleApplication) : Prop extends Filled a where
  inboundEmailAlias : a.inboundEmailAlias ≠ ""
  inboundEmailSuffix : a.inboundEmailSuffix ≠ ""

theorem Filled.fillBlanks {a : ConsoleApplication} (h : a.Filled) (draw : Draw) :
    a.fillBlanks draw = a := by
  simp [ConsoleApplication.fillBlanks, h.appTokenHash, h.enrolmentCode, h.webhookSecret]

theorem filled_fillBlanks (a : ConsoleApplication) (draw : Draw) : (a.fillBlanks draw).Filled := by
  unfold fillBlanks
  have := draw.appTokenHash_ne
  have := draw.enrolmentCode_ne
  have := draw.webhookSecret_ne
  constructor <;> dsimp only <;> split <;> split <;> split <;>
    simp_all [setNewAppToken, rotateWebhookSecret]

@[simp] theorem id_fillBlanks (a : ConsoleApplication) (draw : Draw) :
    (a.fillBlanks draw).id = a.id := by
  unfold fillBlanks
  dsimp only
  split <;> split <;> split <;> rfl

@[simp] theorem ownerId_fillBlanks (a : ConsoleApplication) (draw : Draw) :
    (a.fillBlanks draw).ownerId = a.ownerId := by
  unfold fillBlanks
  dsimp only
  split <;> split <;> split <;> rfl

@[simp] theorem inboundEmailAlias_fillBlanks (a : ConsoleApplication) (draw : Draw) :
    (a.fillBlanks draw).inboundEmailAlias = a.inboundEmailAlias := by
  unfold fillBlanks
  dsimp only
  split <;> split <;> split <;> rfl

theorem Filled.allocateAlias {a : ConsoleApplication} (h : a.Filled) (draw : Draw) :
    (a.allocateAlias draw).Complete :=
  { h with
    inboundEmailAlias := draw.alias_ne
    inboundEmailSuffix := draw.aliasSuffix_ne }

end ConsoleApplication

/-- A save of some columns of a complete instance leaves a complete row. -/
theorem Columns.complete_copy {o row : ConsoleApplication} (c : Columns) (ho : o.Complete)
    (hrow : row.Complete) : (c.copy o row).Complete := by
  obtain ⟨⟨h₁, h₂, h₃⟩, h₄, h₅⟩ := ho
  obtain ⟨⟨k₁, k₂, k₃⟩, k₄, k₅⟩ := hrow
  cases c <;> exact ⟨⟨by assumption, by assumption, by assumption⟩, by assumption, by assumption⟩

/-! ### Writes -/

/-- The row a save writes. -/
inductive Writes (applications : Table ConsoleApplication) (a : ConsoleApplication) :
    SavePurpose → ConsoleApplication → Prop
  | create : Writes applications a .create { a with id := applications.seq + 1 }
  | patch : Writes applications a .patch a
  | regenerateEmail (old) : Writes applications a (.regenerateEmail old) a
  | update (columns row) (hrow : applications.get? a.id = some row) :
    Writes applications a (.update columns) (columns.copy a row)

theorem write_eq_some {applications applications' : Table ConsoleApplication}
    {purpose : SavePurpose} {a a' : ConsoleApplication}
    (h : write applications purpose a = some (a', applications')) :
    Writes applications a purpose a' ∧ violatesUnique applications a' = false ∧
      applications' = applications.put a' := by
  have hput : ∀ b, (if violatesUnique applications b then none
      else some (b, applications.put b)) = some (a', applications') →
      b = a' ∧ violatesUnique applications a' = false ∧
        applications' = applications.put a' := by
    intro b hb
    split at hb
    · simp at hb
    · next hunique =>
      obtain ⟨rfl, rfl⟩ := Prod.mk.inj (Option.some.inj hb)
      exact ⟨rfl, by simpa using hunique, rfl⟩
  cases purpose with
  | create =>
    obtain ⟨rfl, hrest⟩ := hput _ h
    exact ⟨.create, hrest⟩
  | patch =>
    obtain ⟨rfl, hrest⟩ := hput _ h
    exact ⟨.patch, hrest⟩
  | regenerateEmail old =>
    obtain ⟨rfl, hrest⟩ := hput _ h
    exact ⟨.regenerateEmail old, hrest⟩
  | update columns =>
    obtain ⟨row, hrow, hwrite⟩ := Option.bind_eq_some_iff.mp h
    obtain ⟨rfl, hrest⟩ := hput _ hwrite
    exact ⟨.update columns row hrow, hrest⟩

/-! ### Well-formed states -/

/-- What is known of a request between two of its statements. -/
def ConsoleProcess.Ready : ConsoleProcess → Prop
  | .saving object .create _ => object.inboundEmailAlias = ""
  | .saving object (.regenerateEmail old) _ =>
    object.Filled ∧ object.inboundEmailAlias = "" ∧ old ≠ ""
  | .saving object .patch _ => object.Complete
  | .saving object (.update columns) _ =>
    object.Complete ∧ columns ≠ .all ∧ columns ≠ .inboundEmail
  | .deleting object => object.Complete
  | .provisioning _ _ | .deprovisioning _ => True

namespace Console

/-- The rows are complete, and so is what the requests have in memory. -/
structure WellFormed (s : Console) : Prop where
  rows : ∀ row ∈ s.applications.rows, row.Complete
  processes : ∀ rid p, s.processes rid = some p → p.Ready

/-- Nothing is under way, nothing was changed yet, and the rows are complete. -/
structure Idle (s : Console) : Prop where
  rows : ∀ row ∈ s.applications.rows, row.Complete
  processes : s.processes = .idle
  changes : s.changes = []

theorem Idle.wellFormed {s : Console} (h : s.Idle) : s.WellFormed where
  rows := h.rows
  processes rid p hp := by simp [h.processes] at hp

/-! ### Steps -/

/-- What one action does. -/
inductive Steps (s : Console) : ConsoleAction → Console → Prop
  | refuses (rid now r) : Steps s (.request rid now r) s
  | notes (rid now r row) (hrow : row ∈ s.applications.rows) :
    Steps s (.request rid now r) { s with changes := ⟨row.id, .isActive, row⟩ :: s.changes }
  | begins (rid now r p) (hidle : s.processes rid = none) (hp : p.Ready) :
    Steps s (.request rid now r) (s.setProcess rid (some p))
  | fails (rid input object purpose attempts)
    (hp : s.processes rid = some (.saving object purpose attempts)) :
    Steps s (.advance rid input) (s.setProcess rid none)
  | retries (rid input object purpose attempts k)
    (hp : s.processes rid = some (.saving object purpose attempts))
    (hready : (ConsoleProcess.saving (object.fillBlanks input.draw) purpose k).Ready) :
    Steps s (.advance rid input)
      (s.setProcess rid (some (.saving (object.fillBlanks input.draw) purpose k)))
  | patches (rid input object attempts)
    (hp : s.processes rid = some (.saving object .patch attempts)) (hobject : object.Complete) :
    Steps s (.advance rid input)
      (s.written rid .patch object (s.applications.put object) none)
  | updates (rid input object columns attempts row)
    (hp : s.processes rid = some (.saving object (.update columns) attempts))
    (hobject : object.Complete) (hcolumns : columns ≠ .all ∧ columns ≠ .inboundEmail)
    (hrow : s.applications.get? object.id = some row) :
    Steps s (.advance rid input)
      (s.written rid (.update columns) (columns.copy object row)
        (s.applications.put (columns.copy object row)) none)
  | creates (rid input object attempts a)
    (hp : s.processes rid = some (.saving object .create attempts))
    (ha : a = { (object.fillBlanks input.draw).allocateAlias input.draw with
      id := s.applications.seq + 1 })
    (hunique : violatesUnique s.applications a = false) :
    Steps s (.advance rid input)
      (s.written rid .create a (s.applications.put a)
        (some (.provisioning input.draw.alias_ "")))
  | regenerates (rid input object old attempts)
    (hp : s.processes rid = some (.saving object (.regenerateEmail old) attempts))
    (hobject : object.Filled) (hold : old ≠ "")
    (hunique : violatesUnique s.applications (object.allocateAlias input.draw) = false) :
    Steps s (.advance rid input)
      (s.written rid (.regenerateEmail old) (object.allocateAlias input.draw)
        (s.applications.put (object.allocateAlias input.draw))
        (some (.provisioning input.draw.alias_ old)))
  | provisions (rid input alias_ old) (hp : s.processes rid = some (.provisioning alias_ old)) :
    Steps s (.advance rid input) (s.advance rid input (.provisioning alias_ old))
  | deprovisions (rid input alias_) (hp : s.processes rid = some (.deprovisioning alias_)) :
    Steps s (.advance rid input) (s.advance rid input (.deprovisioning alias_))
  | destroys (rid input object) (hp : s.processes rid = some (.deleting object))
    (hobject : object.Complete) :
    Steps s (.advance rid input) (s.advance rid input (.deleting object))

variable {s t : Console}

/-- A request on a loaded row begins with one of three effects. -/
private theorem beginOn_cases {rid : ℕ} {now : Instant} {r : ConsoleRequest}
    {a : ConsoleApplication} (hidle : s.processes rid = none) (ha : a ∈ s.applications.rows)
    (hcomplete : a.Complete) : s.Steps (.request rid now r) (s.beginOn rid now a r) := by
  obtain ⟨⟨hhash, hcode, hsecret⟩, halias, hsuffix⟩ := hcomplete
  have hsave : ∀ (o : ConsoleApplication) (columns : Columns), o.Complete →
      columns ≠ .all ∧ columns ≠ .inboundEmail →
      s.Steps (.request rid now r) (s.save rid o (.update columns)) :=
    fun o columns ho hcolumns => .begins _ _ _ _ hidle ⟨ho, hcolumns⟩
  cases r with
  | create owner name description draw => exact .refuses _ _ _
  | patch owner id data =>
    exact .begins _ _ _ _ hidle ⟨⟨hhash, hcode, hsecret⟩, halias, hsuffix⟩
  | regenerateEmail owner id => exact .begins _ _ _ _ hidle ⟨⟨hhash, hcode, hsecret⟩, rfl, halias⟩
  | regenerateToken owner id draw =>
    exact hsave _ _ ⟨⟨draw.appTokenHash_ne, hcode, hsecret⟩, halias, hsuffix⟩ (by decide)
  | revoke owner id => exact hsave _ _ ⟨⟨hhash, hcode, hsecret⟩, halias, hsuffix⟩ (by decide)
  | rotateEnrolmentCode owner id draw =>
    exact hsave _ _ ⟨⟨hhash, draw.enrolmentCode_ne, hsecret⟩, halias, hsuffix⟩ (by decide)
  | rotateWebhookSecret owner id draw =>
    exact hsave _ _ ⟨⟨hhash, hcode, draw.webhookSecret_ne⟩, halias, hsuffix⟩ (by decide)
  | setActive owner id isActive =>
    simp only [beginOn]
    split
    · exact .notes _ _ _ a ha
    · exact hsave _ _ ⟨⟨hhash, hcode, hsecret⟩, halias, hsuffix⟩ (by decide)
  | setLogo owner id logo =>
    exact hsave _ _ ⟨⟨hhash, hcode, hsecret⟩, halias, hsuffix⟩ (by decide)
  | destroy owner id => exact .begins _ _ _ _ hidle ⟨⟨hhash, hcode, hsecret⟩, halias, hsuffix⟩

/-- A save of an instance with an alias. -/
private theorem saveStep_kept {rid : ℕ} {input : ConsoleInput} {object : ConsoleApplication}
    {purpose : SavePurpose} {attempts : ℕ} (h : object.Complete)
    (hp : s.processes rid = some (.saving object purpose attempts))
    (hwrite : ∀ a' applications, write s.applications purpose object = some (a', applications) →
      s.Steps (.advance rid input) (s.written rid purpose a' applications none)) :
    s.Steps (.advance rid input) (s.saveStep rid input object purpose attempts) := by
  simp only [saveStep, h.toFilled.fillBlanks, ne_eq, h.inboundEmailAlias, not_false_eq_true,
    if_true, h.inboundEmailSuffix, if_false]
  split
  · next a' applications hw => exact hwrite _ _ hw
  · exact .fails _ _ _ _ _ hp

/-- A save of an instance without alias. -/
private theorem saveStep_blank {rid : ℕ} {input : ConsoleInput} {object : ConsoleApplication}
    {purpose : SavePurpose} {attempts : ℕ} (h : object.inboundEmailAlias = "")
    (hp : s.processes rid = some (.saving object purpose attempts))
    (hready : ∀ k,
      (ConsoleProcess.saving (object.fillBlanks input.draw) purpose k).Ready)
    (hwrite : ∀ a' applications,
      write s.applications purpose ((object.fillBlanks input.draw).allocateAlias input.draw) =
        some (a', applications) →
      s.Steps (.advance rid input) (s.written rid purpose a' applications
        (some (.provisioning input.draw.alias_ purpose.old)))) :
    s.Steps (.advance rid input) (s.saveStep rid input object purpose attempts) := by
  have hretry : s.Steps (.advance rid input)
      (s.retrySave rid (object.fillBlanks input.draw) purpose attempts) := by
    unfold retrySave
    split
    · exact .fails _ _ _ _ _ hp
    · exact .fails _ _ _ _ _ hp
    · exact .retries _ _ _ _ _ _ hp (hready _)
  simp only [saveStep, ConsoleApplication.inboundEmailAlias_fillBlanks, h, ne_eq, not_true,
    if_false]
  split
  · exact hretry
  · split
    · next a' applications hw => exact hwrite _ _ hw
    · exact hretry

/-- Nothing else happens. -/
theorem step_cases {a : ConsoleAction} (hs : s.WellFormed) (h : s.step a = some t) :
    s.Steps a t := by
  cases a with
  | request rid now r =>
    simp only [step] at h
    split at h
    · next hidle =>
      obtain rfl := Option.some.inj h
      have hidle : s.processes rid = none := by simpa using hidle
      have hload : ∀ r a, ((target r).bind fun t => s.load t.1 t.2) = some a →
          s.Steps (.request rid now r) (s.beginOn rid now a r) := by
        intro r a ha
        obtain ⟨t, -, hload⟩ := Option.bind_eq_some_iff.mp ha
        obtain ⟨hget, -⟩ := Option.filter_eq_some_iff.mp hload
        have hmem := (Table.get?_eq_some.mp hget).1
        exact beginOn_cases hidle hmem (hs.rows a hmem)
      cases r with
      | create owner name description draw => exact .begins _ _ _ _ hidle rfl
      | patch | regenerateEmail | regenerateToken | revoke | rotateEnrolmentCode
      | rotateWebhookSecret | setActive | setLogo | destroy =>
        simp only [begin]
        split
        · next a ha => exact hload _ a ha
        · exact .refuses _ _ _
    · simp at h
  | advance rid input =>
    obtain ⟨p, hp, rfl⟩ := Option.map_eq_some_iff.mp h
    have hready := hs.processes rid p hp
    cases p with
    | saving object purpose attempts =>
      simp only [advance]
      cases purpose with
      | create =>
        refine saveStep_blank hready hp
          (fun k => (ConsoleApplication.inboundEmailAlias_fillBlanks _ _).trans hready) ?_
        intro a' applications hw
        obtain ⟨hwrites, hunique, rfl⟩ := write_eq_some hw
        cases hwrites with
        | create => exact .creates _ _ _ _ _ hp rfl hunique
      | patch =>
        refine saveStep_kept hready hp ?_
        intro a' applications hw
        obtain ⟨hwrites, hunique, rfl⟩ := write_eq_some hw
        cases hwrites with
        | patch => exact .patches _ _ _ _ hp hready
      | regenerateEmail old =>
        obtain ⟨hfilled, halias, hold⟩ := hready
        have hfill := hfilled.fillBlanks input.draw
        refine saveStep_blank halias hp
          (fun k => ⟨hfill.symm ▸ hfilled, hfill.symm ▸ halias, hold⟩) ?_
        rw [hfill]
        intro a' applications hw
        obtain ⟨hwrites, hunique, rfl⟩ := write_eq_some hw
        cases hwrites with
        | regenerateEmail => exact .regenerates _ _ _ _ _ hp hfilled hold hunique
      | update columns =>
        refine saveStep_kept hready.1 hp ?_
        intro a' applications hw
        obtain ⟨hwrites, hunique, rfl⟩ := write_eq_some hw
        cases hwrites with
        | update _ row hrow => exact .updates _ _ _ _ _ row hp hready.1 hready.2 hrow
    | provisioning alias_ old => exact .provisions _ _ _ _ hp
    | deprovisioning alias_ => exact .deprovisions _ _ _ hp
    | deleting object => exact .destroys _ _ _ hp hready

/-- An action moves no other request. -/
theorem Steps.processes_of_ne {a : ConsoleAction} (h : s.Steps a t) {i : ℕ} (hi : i ≠ a.rid) :
    t.processes i = s.processes i := by
  cases h with
  | refuses | notes => rfl
  | begins | fails | retries | patches | updates | creates | regenerates | provisions
  | deprovisions | destroys => exact Pool.set_of_ne _ _ hi

/-- Every action keeps the rows and the requests complete. -/
theorem Steps.wellFormed {a : ConsoleAction} (h : s.Steps a t) (hs : s.WellFormed) :
    t.WellFormed := by
  have hput : ∀ b : ConsoleApplication, b.Complete →
      ∀ row ∈ (s.applications.put b).rows, row.Complete := by
    intro b hb row hrow
    rcases Table.mem_put.mp hrow with rfl | ⟨hrow, -⟩
    · exact hb
    · exact hs.rows row hrow
  have hset : ∀ rid (p : Option ConsoleProcess), (∀ q, p = some q → q.Ready) →
      ∀ i q, s.processes.set rid p i = some q → q.Ready :=
    fun rid p hp => Pool.forall_set hs.processes hp
  cases h with
  | refuses => exact hs
  | notes => exact ⟨hs.rows, hs.processes⟩
  | begins rid now r p hidle hp => exact ⟨hs.rows, hset _ _ (by simpa using hp)⟩
  | fails => exact ⟨hs.rows, hset _ _ (by simp)⟩
  | retries rid input object purpose attempts k hp hready =>
    exact ⟨hs.rows, hset _ _ (by simpa using hready)⟩
  | patches rid input object attempts hp hobject =>
    exact ⟨hput _ hobject, hset _ _ (by simp)⟩
  | updates rid input object columns attempts row hp hobject hcolumns hrow =>
    have hrow := hs.rows row (Table.get?_eq_some.mp hrow).1
    exact ⟨hput _ (columns.complete_copy hobject hrow), hset _ _ (by simp)⟩
  | creates rid input object attempts a hp ha =>
    have hcomplete := (ConsoleApplication.filled_fillBlanks object input.draw).allocateAlias
      input.draw
    have ha : a.Complete := by
      rw [ha]
      exact ⟨{ hcomplete.toFilled with }, hcomplete.inboundEmailAlias,
        hcomplete.inboundEmailSuffix⟩
    exact ⟨hput _ ha, hset _ _ (by simp [ConsoleProcess.Ready])⟩
  | regenerates rid input object old attempts hp hobject =>
    exact ⟨hput _ (hobject.allocateAlias input.draw), hset _ _ (by simp [ConsoleProcess.Ready])⟩
  | provisions rid input alias_ old hp =>
    refine ⟨hs.rows, hset _ _ ?_⟩
    intro q hq
    split at hq
    · obtain rfl := Option.some.inj hq
      trivial
    · simp at hq
  | deprovisions => exact ⟨hs.rows, hset _ _ (by simp)⟩
  | destroys rid input object hp hobject =>
    refine ⟨fun row hrow => hs.rows row (Table.mem_delete.mp hrow).1, hset _ _ ?_⟩
    intro q hq
    split at hq
    · obtain rfl := Option.some.inj hq
      trivial
    · simp at hq

end Console

end PushIT
