import PushIT.Credentials

/-!
# Stored and provisioned aliases agree

The aliases on the shared mailbox change by calls of their own, after the row was written and
with the alias that the request found when it loaded the row.  Between its statements a request
owes a provision or a deprovision; when nothing is owed the stored and the provisioned aliases
are the same.  A request that acts on an alias which is no longer that of the row leaves one
behind, or takes one away that is in use.

## Main definitions

* `Coming`, `Leaving`: the calls that the requests under way still owe.
* `Console.Aligned`: every write and every call is about the alias of the row.
* `Console.InStep`: the invariant.

## Main results

* `aliases_agree`: once all requests have ended the aliases agree.
* `alias_orphaned`: without the assumption they do not.
-/

namespace PushIT

open Relational Transition

/-! ### Calls that are owed -/

/-- The request deprovisions the alias later. -/
def ConsoleProcess.leaves : ConsoleProcess → String → Prop
  | .provisioning alias_ old, x => old ≠ "" ∧ old ≠ alias_ ∧ old = x
  | .deprovisioning alias_, x => alias_ = x
  | .saving _ _ _, _ | .deleting _, _ => False

/-- A request has allocated the alias and will provision it. -/
def Coming (processes : Pool ConsoleProcess) (x : String) : Prop :=
  ∃ rid old, processes rid = some (.provisioning x old)

/-- A request will deprovision the alias. -/
def Leaving (processes : Pool ConsoleProcess) (x : String) : Prop :=
  ∃ rid p, processes rid = some p ∧ p.leaves x

theorem Coming.set {P : Pool ConsoleProcess} {x : String} {rid : ℕ}
    {next : Option ConsoleProcess} (h : Coming P x)
    (hp : ∀ old, P rid ≠ some (.provisioning x old)) : Coming (P.set rid next) x := by
  obtain ⟨i, old, hi⟩ := h
  have hne : i ≠ rid := by
    rintro rfl
    exact hp old hi
  exact ⟨i, old, (Pool.set_of_ne P next hne).trans hi⟩

theorem Leaving.set {P : Pool ConsoleProcess} {x : String} {rid : ℕ}
    {next : Option ConsoleProcess} (h : Leaving P x)
    (hp : ∀ p, P rid = some p → ¬p.leaves x) : Leaving (P.set rid next) x := by
  obtain ⟨i, p, hi, hleaves⟩ := h
  have hne : i ≠ rid := by
    rintro rfl
    exact hp p hi hleaves
  exact ⟨i, p, (Pool.set_of_ne P next hne).trans hi, hleaves⟩

/-- The processes of `P'` owe every call that those of `P` owe. -/
structure StillOwed (P P' : Pool ConsoleProcess) : Prop where
  coming : ∀ x, Coming P x → Coming P' x
  leaving : ∀ x, Leaving P x → Leaving P' x

/-- The process has no call of Exchange to make yet. -/
def ConsoleProcess.owesNothing : ConsoleProcess → Bool
  | .saving _ _ _ | .deleting _ => true
  | .provisioning _ _ | .deprovisioning _ => false

/-- A process that owes nothing may go on or end. -/
theorem stillOwed_set {P : Pool ConsoleProcess} {rid : ℕ} (next : Option ConsoleProcess)
    (hp : (P rid).all ConsoleProcess.owesNothing = true) : StillOwed P (P.set rid next) where
  coming x hx := hx.set fun old hold => by simp [hold, ConsoleProcess.owesNothing] at hp
  leaving x hx := hx.set fun p hrid hleaves => by
    rw [hrid, Option.all_some] at hp
    cases p with
    | saving | deleting => exact hleaves
    | provisioning | deprovisioning => simp [ConsoleProcess.owesNothing] at hp

/-! ### Agreement -/

namespace Console

/-- The provisioned aliases are those of the stored applications. -/
structure Agree (s : Console) : Prop where
  stored : ∀ row ∈ s.applications.rows, row.inboundEmailAlias ∈ s.provisioned
  provisioned : ∀ x ∈ s.provisioned, ∃ row ∈ s.applications.rows, row.inboundEmailAlias = x

/-- They are, up to the calls that are owed. -/
structure InStep (s : Console) : Prop where
  stored : ∀ row ∈ s.applications.rows,
    row.inboundEmailAlias ∈ s.provisioned ∨ Coming s.processes row.inboundEmailAlias
  provisioned : ∀ x ∈ s.provisioned,
    (∃ row ∈ s.applications.rows, row.inboundEmailAlias = x) ∨ Leaving s.processes x

theorem Agree.inStep {s : Console} (h : s.Agree) : s.InStep where
  stored row hrow := Or.inl (h.stored row hrow)
  provisioned x hx := Or.inl (h.provisioned x hx)

theorem InStep.agree {s : Console} (h : s.InStep) (hidle : s.processes = .idle) : s.Agree where
  stored row hrow := by
    rcases h.stored row hrow with hmem | ⟨rid, old, hp⟩
    · exact hmem
    · simp [hidle] at hp
  provisioned x hx := by
    rcases h.provisioned x hx with hrow | ⟨rid, p, hp, -⟩
    · exact hrow
    · simp [hidle] at hp

/-- What the process does next is about the alias that the row has: a PATCH finds the row with
the alias it loaded, a regeneration and a deletion find no other one, and the calls of Exchange
provision an alias that is stored and deprovision one that is not. -/
def aligned (s : Console) : ConsoleProcess → Bool
  | .saving object .patch _ =>
    (s.applications.get? object.id).any fun row =>
      row.inboundEmailAlias == object.inboundEmailAlias
  | .saving object (.regenerateEmail old) _ =>
    (s.applications.get? object.id).all fun row => row.inboundEmailAlias == old
  | .saving _ _ _ => true
  | .deleting object =>
    (s.applications.get? object.id).all fun row =>
      row.inboundEmailAlias == object.inboundEmailAlias
  | .provisioning alias_ _ =>
    s.applications.rows.any fun row => row.inboundEmailAlias == alias_
  | .deprovisioning alias_ =>
    !s.applications.rows.any fun row => row.inboundEmailAlias == alias_

/-- A later call makes good for the one of this process. -/
def redeemed (s : Console) : ConsoleProcess → Prop
  | .provisioning alias_ _ => Leaving s.processes alias_
  | .deprovisioning alias_ => Coming s.processes alias_
  | .saving _ _ _ | .deleting _ => False

/-- The next statement of every process is about the alias of the row, or a later call makes
good for it. -/
def Aligned (s : Console) : ConsoleAction → Prop
  | .request _ _ _ => True
  | .advance rid _ => ∀ p, s.processes rid = some p → s.aligned p = true ∨ s.redeemed p

/-- Every process is about the alias of the row. -/
def allAligned (s : Console) : ConsoleAction → Bool
  | .request _ _ _ => true
  | .advance rid _ => (s.processes rid).all s.aligned

theorem Aligned.of_allAligned {s : Console} {a : ConsoleAction} (h : s.allAligned a = true) :
    s.Aligned a := by
  cases a with
  | request => trivial
  | advance rid input =>
    intro p hp
    left
    simpa [allAligned, hp] using h

/-! ### Steps -/

variable {s t : Console}

/-- Processes that owe nothing come and go. -/
private theorem InStep.frame (hs : s.InStep) (happlications : t.applications = s.applications)
    (hprovisioned : t.provisioned = s.provisioned)
    (howed : StillOwed s.processes t.processes) : t.InStep where
  stored row hrow := by
    rw [hprovisioned]
    exact (hs.stored row (happlications ▸ hrow)).imp_right (howed.coming _)
  provisioned x hx := by
    rw [happlications]
    exact (hs.provisioned x (hprovisioned ▸ hx)).imp_right (howed.leaving _)

/-- A row is written: its alias is provisioned or on its way, and the one it replaces is the same
or on its way out. -/
private theorem InStep.put (hs : s.InStep) {a : ConsoleApplication}
    (happlications : t.applications = s.applications.put a)
    (hprovisioned : t.provisioned = s.provisioned)
    (howed : StillOwed s.processes t.processes)
    (ha : a.inboundEmailAlias ∈ s.provisioned ∨ Coming t.processes a.inboundEmailAlias)
    (hold : ∀ row, s.applications.get? a.id = some row →
      row.inboundEmailAlias = a.inboundEmailAlias ∨ Leaving t.processes row.inboundEmailAlias) :
    t.InStep where
  stored row hrow := by
    rw [happlications] at hrow
    rw [hprovisioned]
    rcases Table.mem_put.mp hrow with rfl | ⟨hrow, -⟩
    · exact ha
    · exact (hs.stored row hrow).imp_right (howed.coming _)
  provisioned x hx := by
    rw [happlications]
    rcases hs.provisioned x (hprovisioned ▸ hx) with ⟨row, hrow, rfl⟩ | hleaves
    · by_cases hid : row.id = a.id
      · rcases hold row (hid ▸ Table.get?_pk hrow) with hsame | hleaves
        · exact Or.inl ⟨a, Table.mem_put.mpr (Or.inl rfl), hsame.symm⟩
        · exact Or.inr hleaves
      · exact Or.inl ⟨row, Table.mem_put.mpr (Or.inr ⟨hrow, hid⟩), rfl⟩
    · exact Or.inr (howed.leaving _ hleaves)

/-- A row keeps its alias. -/
private theorem InStep.put_same (hs : s.InStep) {a row : ConsoleApplication}
    (happlications : t.applications = s.applications.put a)
    (hprovisioned : t.provisioned = s.provisioned)
    (howed : StillOwed s.processes t.processes)
    (hrow : s.applications.get? a.id = some row)
    (hsame : row.inboundEmailAlias = a.inboundEmailAlias) : t.InStep := by
  refine hs.put happlications hprovisioned howed ?_ ?_
  · rw [← hsame]
    exact (hs.stored row (Table.get?_eq_some.mp hrow).1).imp_right (howed.coming _)
  · intro row' hrow'
    obtain rfl : row = row' := Option.some.inj (hrow.symm.trans hrow')
    exact Or.inl hsame

/-- An alias is provisioned that is stored, or that a later call takes away again. -/
private theorem InStep.provision (hs : s.InStep) {rid : ℕ} {input : ConsoleInput}
    {alias_ old : String} (hp : s.processes rid = some (.provisioning alias_ old))
    (hok : s.aligned (.provisioning alias_ old) = true ∨ Leaving s.processes alias_) :
    (s.advance rid input (.provisioning alias_ old)).InStep := by
  refine ⟨fun row hrow => ?_, fun x hx => ?_⟩
  · rcases hs.stored row hrow with hmem | hcomes
    · exact Or.inl (List.mem_cons_of_mem _ hmem)
    · by_cases hsame : row.inboundEmailAlias = alias_
      · exact Or.inl (hsame ▸ List.mem_cons_self)
      · refine Or.inr (hcomes.set fun old' hold' => hsame ?_)
        rw [hp] at hold'
        injection hold' with hold'
        injection hold' with hold'
        exact hold'.symm
  · -- the alias it replaces is deprovisioned next
    have hleaves : Leaving s.processes x → Leaving
        (s.processes.set rid
          (if old ≠ "" ∧ old ≠ alias_ then some (.deprovisioning old) else none)) x := by
      intro hx
      by_cases hown : (ConsoleProcess.provisioning alias_ old).leaves x
      · refine ⟨rid, .deprovisioning old, ?_, hown.2.2⟩
        rw [Pool.set_self, if_pos ⟨hown.1, hown.2.1⟩]
      · refine hx.set fun p hrid => ?_
        obtain rfl := Option.some.inj (hp.symm.trans hrid)
        exact hown
    rcases List.mem_cons.mp hx with rfl | hx
    · rcases hok with haligned | hredeemed
      · obtain ⟨row, hrow, hsame⟩ := List.any_eq_true.mp haligned
        exact Or.inl ⟨row, hrow, by simpa using hsame⟩
      · exact Or.inr (hleaves hredeemed)
    · exact (hs.provisioned x hx).imp_right hleaves

/-- An alias is deprovisioned that is not stored, or that a later call provisions again. -/
private theorem InStep.deprovision (hs : s.InStep) {rid : ℕ} {input : ConsoleInput}
    {alias_ : String} (hp : s.processes rid = some (.deprovisioning alias_))
    (hok : s.aligned (.deprovisioning alias_) = true ∨ Coming s.processes alias_) :
    (s.advance rid input (.deprovisioning alias_)).InStep := by
  have hcomes : ∀ x, Coming s.processes x → Coming (s.processes.set rid none) x :=
    fun x hx => hx.set (by simp [hp])
  refine ⟨fun row hrow => ?_, fun x hx => ?_⟩
  · rcases hs.stored row hrow with hmem | hcoming'
    · by_cases hsame : row.inboundEmailAlias = alias_
      · rcases hok with haligned | hredeemed
        · simp only [aligned, Bool.not_eq_true', List.any_eq_false, beq_iff_eq] at haligned
          exact absurd hsame (haligned row hrow)
        · exact Or.inr (hcomes _ (hsame ▸ hredeemed))
      · exact Or.inl (List.mem_filter.mpr ⟨hmem, by simpa using hsame⟩)
    · exact Or.inr (hcomes _ hcoming')
  · obtain ⟨hx, hne⟩ := List.mem_filter.mp hx
    refine (hs.provisioned x hx).imp_right fun hleaves => hleaves.set fun p hrid => ?_
    obtain rfl := Option.some.inj (hp.symm.trans hrid)
    intro hown
    exact absurd hown.symm (by simpa using hne)

/-- A deleted row leaves its alias to the call that follows. -/
private theorem InStep.destroy (hs : s.InStep) {rid : ℕ} {input : ConsoleInput}
    {object : ConsoleApplication} (hp : s.processes rid = some (.deleting object))
    (hobject : object.Complete) (haligned : s.aligned (.deleting object) = true) :
    (s.advance rid input (.deleting object)).InStep := by
  have howed : ∀ next, StillOwed s.processes (s.processes.set rid next) :=
    fun next => stillOwed_set next (by rw [hp]; rfl)
  refine ⟨fun row hrow => ?_, fun x hx => ?_⟩
  · exact (hs.stored row (Table.mem_delete.mp hrow).1).imp_right ((howed _).coming _)
  · rcases hs.provisioned x hx with ⟨row, hrow, rfl⟩ | hleaves
    · by_cases hid : row.id = object.id
      · have hsame : row.inboundEmailAlias = object.inboundEmailAlias := by
          have hget : s.applications.get? object.id = some row := hid ▸ Table.get?_pk hrow
          simpa [aligned, hget] using haligned
        refine Or.inr ⟨rid, .deprovisioning object.inboundEmailAlias, ?_, hsame.symm⟩
        refine (Pool.set_self _ _ _).trans ?_
        rw [if_pos hobject.inboundEmailAlias]
      · exact Or.inl ⟨row, Table.mem_delete.mpr ⟨hrow, by simpa using hid⟩, rfl⟩
    · exact Or.inr ((howed _).leaving _ hleaves)

/-- Every aligned action keeps the invariant. -/
theorem InStep.step {a : ConsoleAction} (hs : s.InStep) (hok : s.Aligned a) (h : s.Steps a t) :
    t.InStep := by
  cases h with
  | refuses => exact hs
  | notes => exact ⟨hs.stored, hs.provisioned⟩
  | begins rid now r p hidle hp =>
    exact hs.frame rfl rfl (stillOwed_set _ (by simp [hidle]))
  | fails rid input object purpose attempts hp =>
    exact hs.frame rfl rfl (stillOwed_set _ (by rw [hp]; rfl))
  | retries rid input object purpose attempts k hp hready =>
    exact hs.frame rfl rfl (stillOwed_set _ (by rw [hp]; rfl))
  | patches rid input object attempts hp hobject =>
    have haligned : s.aligned (.saving object .patch attempts) = true :=
      (hok _ hp).resolve_right id
    obtain ⟨row, hrow, hsame⟩ := Option.any_eq_true _ _ |>.mp haligned
    exact hs.put_same rfl rfl (stillOwed_set _ (by rw [hp]; rfl)) hrow (by simpa using hsame)
  | updates rid input object columns attempts row hp hobject hcolumns hrow =>
    have hkeeps : (columns.copy object row).id = row.id ∧
        (columns.copy object row).inboundEmailAlias = row.inboundEmailAlias := by
      cases columns with
      | all => exact absurd rfl hcolumns.1
      | inboundEmail => exact absurd rfl hcolumns.2
      | none | appToken | revokedAt | enrolment | webhookSecret | isActive | logo =>
        exact ⟨rfl, rfl⟩
    have hstored := Table.get?_pk (Table.get?_eq_some.mp hrow).1
    exact hs.put_same rfl rfl (stillOwed_set _ (by rw [hp]; rfl)) (hkeeps.1 ▸ hstored) hkeeps.2.symm
  | creates rid input object attempts a hp ha =>
    refine hs.put rfl rfl (stillOwed_set _ (by rw [hp]; rfl)) ?_ ?_
    · exact Or.inr ⟨rid, "", by rw [ha]; exact Pool.set_self _ _ _⟩
    · intro row hrow
      have hfresh : s.applications.get? a.id = none :=
        Table.get?_of_seq_lt (by rw [ha]; exact Nat.lt_succ_self _)
      exact absurd (hfresh.symm.trans hrow) (by simp)
  | regenerates rid input object old attempts hp hobject hold =>
    have haligned : s.aligned (.saving object (.regenerateEmail old) attempts) = true :=
      (hok _ hp).resolve_right id
    refine hs.put rfl rfl (stillOwed_set _ (by rw [hp]; rfl)) ?_ ?_
    · exact Or.inr ⟨rid, old, Pool.set_self _ _ _⟩
    · intro row hrow
      have hsame : row.inboundEmailAlias = old := by
        change s.applications.get? object.id = some row at hrow
        simpa [aligned, hrow] using haligned
      by_cases hnew : old = input.draw.alias_
      · exact Or.inl (hsame.trans hnew)
      · exact Or.inr ⟨rid, _, Pool.set_self _ _ _, hold, hnew, hsame.symm⟩
  | provisions rid input alias_ old hp => exact hs.provision hp (hok _ hp)
  | deprovisions rid input alias_ hp => exact hs.deprovision hp (hok _ hp)
  | destroys rid input object hp hobject =>
    exact hs.destroy hp hobject ((hok _ hp).resolve_right id)

end Console

/-- In every run in which each write and each call is about the alias that the row has, or is
made good by a later call, the provisioned aliases are those of the stored applications once all
requests have ended. -/
theorem aliases_agree {s t : Console} (h₀ : s.Idle) (hagree : s.Agree)
    (h : console.Reach Console.Aligned s t) (hidle : t.processes = .idle) : t.Agree := by
  have hpreserves : console.Preserves Console.Aligned fun u => u.WellFormed ∧ u.InStep := by
    intro u a v hu hok hstep
    have hsteps := Console.step_cases hu.1 hstep
    exact ⟨hsteps.wellFormed hu.1, hu.2.step hok hsteps⟩
  exact (h.invariant hpreserves ⟨h₀.wellFormed, hagree.inStep⟩).2.agree hidle

/-! ### Samples -/

theorem Sample.console_agree : Sample.console.Agree where
  stored row hrow := by
    obtain rfl | ⟨hrow, -⟩ := Table.mem_put.mp hrow
    · decide
    · simp at hrow
  provisioned x hx :=
    ⟨consoleApplication, Table.mem_put.mpr (Or.inl rfl), (List.mem_singleton.mp hx).symm⟩

/-- In a run of the requests `0`, `1` and `2` no other one is under way. -/
theorem Sample.processes_idle {ok : Console → ConsoleAction → Prop} {t : Console}
    (h : PushIT.console.Reach (fun s a => ok s a ∧ a.rid < 3) Sample.console t)
    (hidle : ((List.range 3).all fun rid => (t.processes rid).isNone) = true) :
    t.processes = .idle := by
  have hpreserves : PushIT.console.Preserves (fun s a => ok s a ∧ a.rid < 3)
      fun u => u.WellFormed ∧ ∀ i, 3 ≤ i → u.processes i = none := by
    intro u a v hu hok hstep
    have hsteps := Console.step_cases hu.1 hstep
    refine ⟨hsteps.wellFormed hu.1, fun i hi => ?_⟩
    have hne : i ≠ a.rid := by omega
    exact (hsteps.processes_of_ne hne).trans (hu.2 i hi)
  have hothers := (h.invariant hpreserves ⟨Sample.console_idle.wellFormed, fun _ _ => rfl⟩).2
  funext i
  by_cases hi : i < 3
  · simpa using List.all_eq_true.mp hidle i (List.mem_range.mpr hi)
  · exact hothers i (not_lt.mp hi)

/-- A creation beside a regeneration. -/
theorem sample_aliases_agree :
    ∃ t : Console,
      (t.applications.rows.map (·.inboundEmailAlias) == ["app-2.pushit", "app-3.pushit"]) = true ∧
      t.Agree := by
  obtain ⟨t, hreach, ht⟩ := System.exists_reach_of_guardedRun console
    (fun s a => s.allAligned a = true ∧ a.rid < 3) Sample.console
    [.request 1 0 (.regenerateEmail 1 1), .request 2 0 (.create 2 "Other" "" Sample.thirdDraw),
      .advance 2 { draw := Sample.thirdDraw }, .advance 1 { draw := Sample.secondDraw },
      .advance 1 {}, .advance 2 {}, .advance 1 {}]
    (fun t => t.applications.rows.map (·.inboundEmailAlias) == ["app-2.pushit", "app-3.pushit"] &&
      (List.range 3).all fun rid => (t.processes rid).isNone) (by decide)
  simp only [Bool.and_eq_true] at ht
  have hidle := Sample.processes_idle hreach ht.2
  exact ⟨t, ht.1, aliases_agree Sample.console_idle Sample.console_agree
    (hreach.mono _ fun s a hok => Console.Aligned.of_allAligned hok.1) hidle⟩

/-- Two regenerations that loaded the same row end with the alias of the first one provisioned,
although the row has that of the second. -/
theorem alias_orphaned :
    Sample.console.Idle ∧ Sample.console.Agree ∧
      ∃ t : Console, console.Reach (fun _ _ => True) Sample.console t ∧ t.processes = .idle ∧
        t.provisioned = ["app-3.pushit", "app-2.pushit"] ∧ ¬t.Agree := by
  refine ⟨Sample.console_idle, Sample.console_agree, ?_⟩
  obtain ⟨t, hreach, ht⟩ := System.exists_reach_of_guardedRun console
    (fun _ a => True ∧ a.rid < 3) Sample.console
    [.request 1 0 (.regenerateEmail 1 1), .request 2 0 (.regenerateEmail 1 1),
      .advance 1 { draw := Sample.secondDraw }, .advance 2 { draw := Sample.thirdDraw },
      .advance 1 {}, .advance 1 {}, .advance 2 {}, .advance 2 {}]
    (fun t => t.provisioned == ["app-3.pushit", "app-2.pushit"] &&
      t.applications.rows.map (·.inboundEmailAlias) == ["app-3.pushit"] &&
      (List.range 3).all fun rid => (t.processes rid).isNone) (by decide)
  simp only [Bool.and_eq_true, beq_iff_eq] at ht
  obtain ⟨⟨hprovisioned, hrows⟩, hidle⟩ := ht
  refine ⟨t, hreach.mono _ fun _ _ _ => trivial, Sample.processes_idle hreach hidle, hprovisioned,
    fun hagree => ?_⟩
  have hmem : "app-2.pushit" ∈ t.provisioned := by simp [hprovisioned]
  obtain ⟨row, hrow, halias⟩ := hagree.provisioned _ hmem
  have hstored : "app-2.pushit" ∈ t.applications.rows.map (·.inboundEmailAlias) :=
    List.mem_map.mpr ⟨row, hrow, halias⟩
  simp [hrows] at hstored

end PushIT
