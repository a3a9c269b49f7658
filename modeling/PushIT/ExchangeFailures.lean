import PushIT.ExchangeService

/-!
# Failures of Exchange

The callers of the service swallow the errors of one family.  What is outside of it comes from the
start of the program, from an output that is no text, from a JSON text that the reader gives up
on, and from a success whose data is no object.

## Main definitions

* `Subprocess.Contained`, `Exchange.Contained`: the runs of the script that raise nothing outside
  the family.

## Main results

* `exchange_failures_contained_iff`: the callers of the service are left alone by these runs, and
  by no others.
* `exchange_failures_escape`: a success without data, and a program that is not there.
-/

namespace PushIT

open JsonText

/-- The run of the script raises nothing outside the family of `ExchangeError`. -/
def Subprocess.Contained (maxDepth : ℕ) : Subprocess → Prop
  | .notStarted | .undecodable => False
  | .timedOut => True
  | .completed stdout _ _ => strip stdout ≠ "" →
      loads maxDepth (lastLine (strip stdout)) ≠ .error .digits ∧
      loads maxDepth (lastLine (strip stdout)) ≠ .error .recursion ∧
      ∀ payload, loads maxDepth (lastLine (strip stdout)) = .ok (.object payload) →
        Value.get "success" payload = some (.bool true) →
        ∃ data, Value.get "data" payload = some (.object data)

/-- The script is not run for the address, or its run is contained. -/
def Exchange.Contained (X : Exchange) (action : AliasAction) (aliasEmail : String) : Prop :=
  X.settings.isConfigured = true → validateEmail X.settings.sharedMailbox = .ok () →
    validateEmail aliasEmail = .ok () → (X.script action aliasEmail).Contained X.maxDepth

/-! ### The service -/

theorem validateEmail_eq (value : String) :
    validateEmail value = .ok () ∨
      validateEmail value = .error (.exchange .invalidAliasInput) := by
  unfold validateEmail
  split_ifs <;> simp

/-- A success is contained when its data is an object. -/
private theorem payload_contained_iff {payload : List (List ℕ × Value)} :
    swallow ((payloadData (.object payload)).bind members) = .ok () ↔
      (Value.get "success" payload = some (.bool true) →
        ∃ data, Value.get "data" payload = some (.object data)) := by
  simp only [payloadData]
  split
  · next hsuccess =>
    rw [hsuccess, imp_iff_right rfl]
    cases hdata : Value.get "data" payload with
    | none => simp [Except.bind, members, swallow]
    | some v => cases v <;> simp [Except.bind, members, swallow]
  · next hfailure =>
    simp only [Except.bind, swallow, true_iff]
    exact fun hsuccess => (hfailure hsuccess).elim

/-- The data of a run that is read as an object. -/
theorem runScript_contained_iff {maxDepth : ℕ} {p : Subprocess} :
    swallow ((runScript maxDepth p).bind members) = .ok () ↔ p.Contained maxDepth := by
  cases p with
  | notStarted | undecodable | timedOut =>
    simp [runScript, swallow, Subprocess.Contained, Except.bind]
  | completed stdout stderr returncode =>
    simp only [runScript, Subprocess.Contained]
    by_cases hempty : strip stdout = ""
    · simp [hempty, swallow, Except.bind]
    · simp only [hempty, ↓reduceIte, ne_eq, not_false_eq_true, forall_const]
      cases hloads : loads maxDepth (lastLine (strip stdout)) with
      | error e => cases e <;> simp [swallow, Except.bind]
      | ok v =>
        cases v with
        | object payload => simpa using payload_contained_iff
        | _ => simp [payloadData, swallow, Except.bind]

/-- A change of an alias: its addresses are checked before the script is run. -/
theorem changeAlias_contained_iff {maxDepth : ℕ} {action : AliasAction} {p : Subprocess}
    {mailbox aliasEmail : String} :
    swallow (changeAlias maxDepth action p mailbox aliasEmail) = .ok () ↔
      (validateEmail mailbox = .ok () → validateEmail aliasEmail = .ok () →
        p.Contained maxDepth) := by
  rcases validateEmail_eq mailbox with hmailbox | hmailbox
  · rcases validateEmail_eq aliasEmail with halias | halias
    · rw [← runScript_contained_iff, imp_iff_right hmailbox, imp_iff_right halias]
      simp only [changeAlias, hmailbox, halias, bind, Except.bind, pure, Except.pure]
      cases runScript maxDepth p with
      | error e => cases e <;> exact Iff.rfl
      | ok v => cases v <;> exact Iff.rfl
    · simp [changeAlias, hmailbox, halias, swallow, bind, Except.bind]
  · simp [changeAlias, hmailbox, swallow, bind, Except.bind]

variable {P : MailPlatform} {X : Exchange}

private theorem script_contained_iff {action : AliasAction} {aliasEmail : String} :
    (if !X.settings.isConfigured then Except.ok ()
      else if X.settings.psScriptPath = "" then
        swallow (α := Unit) (.error (.exchange .exchangeConfigError))
      else swallow (changeAlias X.maxDepth action (X.script action aliasEmail)
        X.settings.sharedMailbox aliasEmail)) = .ok () ↔ X.Contained action aliasEmail := by
  unfold Exchange.Contained
  by_cases hconfigured : X.settings.isConfigured = true
  · have hpath : X.settings.psScriptPath ≠ "" := by
      simp only [ExchangeSettings.isConfigured, Bool.and_eq_true, bne_iff_ne] at hconfigured
      exact hconfigured.1.1.1
    simp only [hconfigured, Bool.not_true, Bool.false_eq_true, ↓reduceIte, hpath,
      forall_const]
    exact changeAlias_contained_iff
  · simp [hconfigured]

theorem provision_eq_ok_iff {aliasEmail : String} :
    X.provision aliasEmail = .ok () ↔ X.Contained .add aliasEmail :=
  script_contained_iff

theorem deprovision_eq_ok_iff {aliasEmail : String} :
    X.deprovision aliasEmail = .ok () ↔ X.Contained .remove aliasEmail :=
  script_contained_iff

/-! ### The callers -/

/-- What follows a write leaves its result alone when it raises nothing. -/
private theorem bind_eq_self_iff {α : Type} {r : Except PythonError α}
    {after : α → Except PythonError Unit} :
    (r.bind fun a => (after a).bind fun _ => .ok a) = r ↔
      ∀ a, r = .ok a → after a = .ok () := by
  cases r with
  | error e => simp [Except.bind]
  | ok a =>
    cases hafter : after a <;> simp [Except.bind, hafter]

/-- A step that is taken under a condition. -/
private theorem ite_eq_ok_iff {c : Prop} [Decidable c] {r : Except PythonError Unit} :
    (if c then r else .ok ()) = .ok () ↔ (c → r = .ok ()) := by
  by_cases hc : c <;> simp [hc]

theorem saveApplication_eq_iff {alias_ : String} {update : Except PythonError Unit}
    {attempts : List SaveAttempt} :
    saveApplication P X alias_ update attempts = writeApplication P X alias_ update attempts ↔
      ∀ saved, writeApplication P X alias_ update attempts = .ok saved → alias_ = "" →
        X.Contained .add (inboundEmailAddress P X saved) := by
  have hsave : saveApplication P X alias_ update attempts =
      (writeApplication P X alias_ update attempts).bind fun saved =>
        (if alias_ = "" then X.provision (inboundEmailAddress P X saved) else .ok ()).bind
          fun _ => .ok saved := by
    unfold saveApplication
    cases writeApplication P X alias_ update attempts with
    | error e => rfl
    | ok saved => by_cases hnew : alias_ = "" <;> simp [bind, Except.bind, pure, Except.pure, hnew]
  rw [hsave, bind_eq_self_iff]
  simp only [ite_eq_ok_iff, provision_eq_ok_iff]

/-- A regeneration ends like the write of the row. -/
theorem regenerateInboundEmail_eq_iff {old : String} {attempts : List SaveAttempt} :
    regenerateInboundEmail P X old attempts = writeApplication P X "" (.ok ()) attempts ↔
      ∀ saved, writeApplication P X "" (.ok ()) attempts = .ok saved →
        X.Contained .add (inboundEmailAddress P X saved) ∧
        (old ≠ "" ∧ old ≠ saved → X.Contained .remove (old ++ "@" ++ X.inbound.domain)) := by
  have hregenerate : regenerateInboundEmail P X old attempts =
      (writeApplication P X "" (.ok ()) attempts).bind fun saved =>
        ((X.provision (inboundEmailAddress P X saved)).bind fun _ =>
          if old ≠ "" ∧ old ≠ saved then X.deprovision (old ++ "@" ++ X.inbound.domain)
          else .ok ()).bind fun _ => .ok saved := by
    unfold regenerateInboundEmail saveApplication
    cases writeApplication P X "" (.ok ()) attempts with
    | error e => rfl
    | ok saved =>
      cases hprovision : X.provision (inboundEmailAddress P X saved) with
      | error e => simp [bind, Except.bind, hprovision]
      | ok _ =>
        by_cases hold : old ≠ "" ∧ old ≠ saved <;>
          simp [bind, Except.bind, pure, Except.pure, hprovision, hold]
  rw [hregenerate, bind_eq_self_iff]
  refine forall_congr' fun saved => imp_congr_right fun _ => ?_
  rw [← provision_eq_ok_iff, ← deprovision_eq_ok_iff, ← ite_eq_ok_iff]
  cases X.provision (inboundEmailAddress P X saved) with
  | error e => simp [Except.bind]
  | ok _ => simp [Except.bind]

theorem deleteApplication_eq_iff {alias_ : String} {deleted : Except PythonError Unit} :
    deleteApplication X alias_ deleted = deleted ↔
      (deleted = .ok () → alias_ ≠ "" →
        X.Contained .remove (alias_ ++ "@" ++ X.inbound.domain)) := by
  unfold deleteApplication
  cases deleted with
  | error e => simp [bind, Except.bind]
  | ok u =>
    have hafter : (do Except.ok u; if alias_ ≠ "" then
        X.deprovision (alias_ ++ "@" ++ X.inbound.domain) : Except PythonError Unit) =
        if alias_ ≠ "" then X.deprovision (alias_ ++ "@" ++ X.inbound.domain) else .ok () := rfl
    rw [hafter, ite_eq_ok_iff, deprovision_eq_ok_iff, imp_iff_right rfl]

/-- The clean-up goes through to its end. -/
theorem afterCommit_eq_iff {images aliases : List String} :
    afterCommit X images aliases = ⟨aliases, images, none⟩ ↔
      ∀ aliasEmail ∈ aliases, X.Contained .remove aliasEmail := by
  induction aliases with
  | nil => simp [afterCommit]
  | cons aliasEmail aliases ih =>
    rw [List.forall_mem_cons, ← ih, ← deprovision_eq_ok_iff, afterCommit]
    cases X.deprovision aliasEmail with
    | error e => simp
    | ok _ =>
      generalize afterCommit X images aliases = rest
      cases rest
      simp

/-- The errors of Exchange are kept from every caller exactly when each run of the script that the
caller asks for is contained; an erasure then hands every alias and every image to its
clean-up. -/
theorem exchange_failures_contained_iff (P : MailPlatform) (X : Exchange) :
    (∀ aliasEmail, X.provision aliasEmail = .ok () ↔ X.Contained .add aliasEmail) ∧
    (∀ aliasEmail, X.deprovision aliasEmail = .ok () ↔ X.Contained .remove aliasEmail) ∧
    (∀ alias_ update attempts,
      saveApplication P X alias_ update attempts = writeApplication P X alias_ update attempts ↔
        ∀ saved, writeApplication P X alias_ update attempts = .ok saved → alias_ = "" →
          X.Contained .add (inboundEmailAddress P X saved)) ∧
    (∀ old attempts,
      regenerateInboundEmail P X old attempts = writeApplication P X "" (.ok ()) attempts ↔
        ∀ saved, writeApplication P X "" (.ok ()) attempts = .ok saved →
          X.Contained .add (inboundEmailAddress P X saved) ∧
          (old ≠ "" ∧ old ≠ saved → X.Contained .remove (old ++ "@" ++ X.inbound.domain))) ∧
    (∀ alias_ deleted, deleteApplication X alias_ deleted = deleted ↔
      (deleted = .ok () → alias_ ≠ "" →
        X.Contained .remove (alias_ ++ "@" ++ X.inbound.domain))) ∧
    (∀ images aliases, afterCommit X images aliases = ⟨aliases, images, none⟩ ↔
      ∀ aliasEmail ∈ aliases, X.Contained .remove aliasEmail) :=
  ⟨fun _ => provision_eq_ok_iff, fun _ => deprovision_eq_ok_iff,
    fun _ _ _ => saveApplication_eq_iff, fun _ _ => regenerateInboundEmail_eq_iff,
    fun _ _ => deleteApplication_eq_iff, fun _ _ => afterCommit_eq_iff⟩

namespace Sample

def exchangeSettings : ExchangeSettings where
  psScriptPath := "/srv/pushit/scripts/exchange/manage_alias.ps1"
  appId := "app"
  tenant := "foxugly.onmicrosoft.com"
  sharedMailbox := "push@foxugly.com"

/-- A script that behaves in the same way for every address. -/
def exchange (p : Subprocess) : Exchange where
  settings := exchangeSettings
  inbound := { domain := "foxugly.com" }
  maxDepth := 100
  script _ _ := p

end Sample

/-- A success without data raises an `AttributeError` in the caller, and a program that is not
there an `OSError`; an erasure then loses the second alias and the image. -/
theorem exchange_failures_escape :
    (Sample.exchange (.completed "\x7b\"success\": true, \"data\": null\x7d" "" 0)).provision
      "mon-app-3f9a2c1b.pushit@foxugly.com" = .error .attributeError ∧
    (Sample.exchange .notStarted).deprovision "mon-app-3f9a2c1b.pushit@foxugly.com" =
      .error .osError ∧
    afterCommit (Sample.exchange .notStarted) ["notifications/1.png"]
      ["mon-app-3f9a2c1b.pushit@foxugly.com", "autre-5d41402a.pushit@foxugly.com"] =
      ⟨["mon-app-3f9a2c1b.pushit@foxugly.com"], [], some .osError⟩ :=
  by decide +kernel

end PushIT
