import PushIT.ApplicationSteps

/-!
# Credential changes are never undone

A stored application shows, in its credentials and its flag, what the requests last set.  A save
with `update_fields` cannot break this.  A PATCH and a regeneration of the inbound address write
the whole instance they loaded, and put back every credential that another request changed
meanwhile; as long as the instance still agrees with the row where the request changes nothing,
they undo nothing either.

## Main definitions

* `ConsoleApplication.security`: the columns that must not be put back.
* `Console.SavesCurrent`: a save of a whole row writes an instance that is still current.

## Main results

* `credentials_never_undone`: every row shows what was last set.
* `credentials_undone`: without the assumption it does not.
-/

namespace PushIT

open Relational Transition

/-- The columns that must not be put back. -/
def ConsoleApplication.security (a : ConsoleApplication) : Credentials × Bool :=
  (a.toCredentials, a.isActive)

theorem Columns.respects_security : Respects Columns.copy ConsoleApplication.security := by
  intro c o r r' h
  obtain ⟨hcredentials, hactive⟩ := Prod.mk.inj h
  cases c <;> simp [copy, ConsoleApplication.security, hcredentials, hactive]

/-- Saving columns twice is saving them once. -/
theorem Columns.copy_copy (c : Columns) (o row : ConsoleApplication) :
    c.copy (c.copy o row) row = c.copy o row := by
  cases c <;> rfl

/-- A new alias leaves rows that agree with their alias copied as rows that agree. -/
theorem security_allocateAlias {o row : ConsoleApplication} (draw : Draw)
    (h : (Columns.copy .inboundEmail o row).security = o.security) :
    (o.allocateAlias draw).security =
      (Columns.copy .inboundEmail (o.allocateAlias draw) row).security := by
  obtain ⟨hcredentials, hactive⟩ := Prod.mk.inj h
  refine Prod.mk.injEq _ _ _ _ ▸ ⟨?_, hactive.symm⟩
  exact (congrArg (fun c : Credentials => { c with
    inboundEmailAlias := draw.alias_
    inboundEmailSuffix := draw.aliasSuffix }) hcredentials).symm

namespace Console

/-- The instance agrees with the stored row outside the columns the request sets. -/
def isCurrent (s : Console) (columns : Columns) (object : ConsoleApplication) : Bool :=
  Relational.isCurrent Columns.copy ConsoleApplication.security s.applications columns object

/-- A save of a whole row writes an instance that is still current. -/
def savesCurrent (s : Console) : ConsoleAction → Bool
  | .request _ _ _ => true
  | .advance rid _ =>
    match s.processes rid with
    | some (.saving object .patch _) => s.isCurrent .none object
    | some (.saving object (.regenerateEmail _) _) => s.isCurrent .inboundEmail object
    | _ => true

def SavesCurrent (s : Console) (a : ConsoleAction) : Prop := s.savesCurrent a = true

instance (s : Console) (a : ConsoleAction) : Decidable (SavesCurrent s a) :=
  inferInstanceAs (Decidable (_ = true))

/-- Every row shows what the requests since `initial` last set. -/
def NothingUndone (initial : Table ConsoleApplication) (s : Console) : Prop :=
  UpToDate Columns.copy ConsoleApplication.security initial s.changes s.applications

theorem Idle.nothingUndone {s : Console} (h : s.Idle) : s.NothingUndone s.applications := by
  unfold NothingUndone
  rw [h.changes]
  exact upToDate_nil _

variable {initial : Table ConsoleApplication} {s t : Console}

/-- No action undoes a change. -/
theorem NothingUndone.step {a : ConsoleAction} (hs : s.NothingUndone initial)
    (hok : s.SavesCurrent a) (h : s.Steps a t) : t.NothingUndone initial := by
  cases h with
  | refuses | begins | fails | retries | provisions | deprovisions => exact hs
  | notes rid now r row hrow =>
    refine UpToDate.note hs Columns.respects_security ?_
    intro row' hrow'
    obtain rfl : row = row' := Option.some.inj ((Table.get?_pk hrow).symm.trans hrow')
    rfl
  | patches rid input object attempts hp hobject =>
    have hcurrent : s.isCurrent .none object = true := by
      simpa [SavesCurrent, savesCurrent, hp] using hok
    obtain ⟨row, hrow, hview⟩ := isCurrent_eq_true.mp hcurrent
    exact UpToDate.saveWhole hs Columns.respects_security hrow hview
  | updates rid input object columns attempts row hp hobject hcolumns hrow =>
    have hid : (columns.copy object row).id = object.id := by
      have : row.id = object.id := (Table.get?_eq_some.mp hrow).2
      cases columns <;> first | exact this | rfl
    have hrow' : s.applications.get? (columns.copy object row).id = some row := hid ▸ hrow
    refine UpToDate.put hs Columns.respects_security rfl ?_ fun hnone => ?_
    · intro r hr
      obtain rfl : row = r := Option.some.inj (hrow'.symm.trans hr)
      exact congrArg _ (Columns.copy_copy columns object row).symm
    · exact absurd (hrow'.symm.trans hnone) (by simp)
  | creates rid input object attempts a hp ha =>
    have hfresh : s.applications.get? (pk a) = none :=
      Table.get?_of_seq_lt (by rw [ha]; exact Nat.lt_succ_self _)
    refine UpToDate.put hs Columns.respects_security rfl ?_ fun _ e => ?_
    · intro row hrow
      exact absurd (hfresh.symm.trans hrow) (by simp)
    · cases e <;> rfl
  | regenerates rid input object old attempts hp hobject =>
    have hcurrent : s.isCurrent .inboundEmail object = true := by
      simpa [SavesCurrent, savesCurrent, hp] using hok
    obtain ⟨row, hrow, hview⟩ := isCurrent_eq_true.mp hcurrent
    exact UpToDate.saveWhole hs Columns.respects_security hrow
      (security_allocateAlias input.draw hview).symm
  | destroys =>
    exact UpToDate.keep hs fun row hrow => ⟨row, (Table.mem_delete.mp hrow).1, rfl, rfl⟩

end Console

/-- In every run of the console in which each save of a whole row writes an instance that is
still current, every stored application shows in its credentials and its flag what was last set:
no rotation, revocation, regeneration, activation or deactivation is undone. -/
theorem credentials_never_undone {s t : Console} (h₀ : s.Idle)
    (h : console.Reach Console.SavesCurrent s t) :
    UpToDate Columns.copy ConsoleApplication.security s.applications t.changes t.applications := by
  have hpreserves : console.Preserves Console.SavesCurrent
      fun u => u.WellFormed ∧ u.NothingUndone s.applications := by
    intro u a v hu hok hstep
    have hsteps := Console.step_cases hu.1 hstep
    exact ⟨hsteps.wellFormed hu.1, hu.2.step hok hsteps⟩
  exact (h.invariant hpreserves ⟨h₀.wellFormed, h₀.nothingUndone⟩).2

/-! ### Samples -/

namespace Sample

/-- An application of user `1` that `save` completed. -/
def consoleApplication : ConsoleApplication :=
  { id := 1
    ownerId := 1
    name := "App"
    appTokenPrefix := "apt_1"
    appTokenHash := "1"
    enrolmentCode := "apk_1"
    inboundEmailAlias := "app-1.pushit"
    inboundEmailSuffix := "1"
    webhookSecret := "whs_1" }

/-- A console with this application, its alias provisioned. -/
def console : Console where
  applications := Table.empty.put consoleApplication
  provisioned := ["app-1.pushit"]

/-- The second of everything that is drawn. -/
def secondDraw : Draw where
  appTokenPrefix := "apt_2"
  appTokenHash := "2"
  enrolmentCode := "apk_2"
  webhookSecret := "whs_2"
  alias_ := "app-2.pushit"
  aliasSuffix := "2"

/-- The third of everything that is drawn. -/
def thirdDraw : Draw where
  appTokenPrefix := "apt_3"
  appTokenHash := "3"
  enrolmentCode := "apk_3"
  webhookSecret := "whs_3"
  alias_ := "app-3.pushit"
  aliasSuffix := "3"

theorem console_idle : Sample.console.Idle where
  rows := by
    intro row hrow
    obtain rfl | ⟨hrow, -⟩ := Table.mem_put.mp hrow
    · exact ⟨⟨by decide, by decide, by decide⟩, by decide, by decide⟩
    · simp at hrow
  processes := rfl
  changes := rfl

end Sample

/-- A rotation of the webhook secret between two PATCHes survives the second one. -/
theorem sample_credentials_never_undone :
    ∃ t : Console,
      (t.applications.get? 1).any (fun a => decide (a.webhookSecret = "whs_2" ∧ a.name = "New")) =
        true ∧
      UpToDate Columns.copy ConsoleApplication.security Sample.console.applications t.changes
        t.applications := by
  obtain ⟨t, hreach, ht⟩ := System.exists_reach_of_guardedRun console Console.SavesCurrent
    Sample.console
    [.request 1 0 (.patch 1 1 { name := some "Old" }), .advance 1 {},
      .request 2 0 (.rotateWebhookSecret 1 1 Sample.secondDraw), .advance 2 {},
      .request 1 0 (.patch 1 1 { name := some "New" }), .advance 1 {}]
    (fun t => (t.applications.get? 1).any fun a =>
      decide (a.webhookSecret = "whs_2" ∧ a.name = "New")) (by decide)
  exact ⟨t, ht, credentials_never_undone Sample.console_idle hreach⟩

/-- A PATCH that loaded the application before a rotation of its enrolment code, a rotation of
its webhook secret and its deactivation returned writes it back as it was. -/
theorem credentials_undone :
    Sample.console.Idle ∧ ∃ t : Console, console.Reach (fun _ _ => True) Sample.console t ∧
      t.applications.get? 1 = some { Sample.consoleApplication with name := "New" } ∧
      ¬UpToDate Columns.copy ConsoleApplication.security Sample.console.applications t.changes
        t.applications := by
  refine ⟨Sample.console_idle, ?_⟩
  obtain ⟨t, hreach, ht⟩ := System.exists_reach_of_guardedRun console (fun _ _ => True)
    Sample.console
    [.request 1 0 (.patch 1 1 { name := some "New" }),
      .request 2 0 (.rotateEnrolmentCode 1 1 Sample.secondDraw), .advance 2 {},
      .request 2 0 (.rotateWebhookSecret 1 1 Sample.secondDraw), .advance 2 {},
      .request 2 0 (.setActive 1 1 false), .advance 2 {}, .advance 1 {}]
    (fun t =>
      decide (t.applications.get? 1 = some { Sample.consoleApplication with name := "New" }) &&
        (lastSet Columns.copy Sample.console.applications t.changes 1).any fun e =>
          decide (e.webhookSecret = "whs_2" ∧ e.enrolmentCode = "apk_2" ∧ e.isActive = false))
    (by decide)
  simp only [Bool.and_eq_true, decide_eq_true_eq] at ht
  obtain ⟨hrow, hlast⟩ := ht
  refine ⟨t, hreach, hrow, fun hdate => ?_⟩
  obtain ⟨e, he, hview⟩ := hdate _ (Table.get?_eq_some.mp hrow).1
  change lastSet Columns.copy Sample.console.applications t.changes 1 = some e at he
  simp only [he, Option.any_some, decide_eq_true_eq] at hlast
  have hactive : true = e.isActive := congrArg Prod.snd hview
  rw [hlast.2.2] at hactive
  simp at hactive

end PushIT
