import Mathlib.Data.List.Chain
import PushIT.AccountSecurity

/-!
# The journal of offered accesses

`accounts/api_staff_views.py`, `StaffUserDetailView.patch`: the flag a PATCH finds is read without
a lock, and the line of the journal comes from its comparison with the flag it leaves.  The line
tells what happened to the row when the flag of the row is still the one that was read.

## Main definitions

* `Accounts.TellsHistory`: the lines of a user alternate and the last one agrees with the flag.
* `Accounts.SavesFlagRead`: a save of a whole row writes over the flag that its request read.

## Main results

* `Accounts.staff_tellsHistory_iff`: what one PATCH needs.
* `bypass_journal_tells_history`: the journal along the runs.
* `grant_journalled_twice`: two PATCHes that read the same flag.
-/

namespace PushIT

open Relational Transition

/-- A journal that alternates and ends with `stored` goes on with a change seen as one from `read`
to `written` exactly when `read` is what is stored. -/
private theorem alternates_append_iff {l : List Bool} {stored read : Bool} (written : Bool)
    (hl : l.IsChain (· ≠ ·)) (hlast : l.getLast? = some stored) :
    (l ++ if written ≠ read then [written] else []).IsChain (· ≠ ·) ∧
      (l ++ if written ≠ read then [written] else []).getLast? = some written ↔
    read = stored := by
  by_cases hsame : written = read
  · subst hsame
    simp [hl, hlast, eq_comm]
  · simp only [ne_eq, hsame, not_false_eq_true, ↓reduceIte, List.isChain_append, hl, hlast,
      List.isChain_singleton, List.head?_cons, Option.mem_some_iff, List.getLast?_append]
    cases read <;> cases stored <;> cases written <;> simp_all

namespace Accounts

/-- The access flag in the row of a user. -/
def flag (s : Accounts) (id : ℕ) : Option Bool :=
  (s.users.get? id).map (·.subscriptionBypass)

/-- The grants and the revocations of a user, in the order of the journal. -/
def grants (s : Accounts) (id : ℕ) : List Bool :=
  (s.journal.filter (·.target == id)).map (·.granted)

/-- The journal tells the history of a user, who starts without the access: grants and
revocations alternate, from a grant on, and the last line agrees with the flag. -/
structure TellsHistory (s : Accounts) (id : ℕ) : Prop where
  alternates : (false :: s.grants id).IsChain (· ≠ ·)
  agrees : (false :: s.grants id).getLast? = s.flag id

/-- A save of the whole row of a user writes over the flag that its request read. -/
def savesFlagRead (id : ℕ) (s : Accounts) : AccountAction → Bool
  | .request _ _ _ => true
  | .advance rid _ =>
    match s.processes rid with
    | some (.profile user _) | some (.staff _ user _) =>
      user.id != id || s.flag id == some user.subscriptionBypass
    | _ => true

def SavesFlagRead (id : ℕ) (s : Accounts) (a : AccountAction) : Prop :=
  savesFlagRead id s a = true

instance (id : ℕ) (s : Accounts) (a : AccountAction) : Decidable (SavesFlagRead id s a) :=
  inferInstanceAs (Decidable (_ = true))

variable {django : Django} {s t : Accounts} {id : ℕ}

/-- The history is about the flag and the journal alone. -/
theorem TellsHistory.of_eq (hs : s.TellsHistory id) (hflag : t.flag id = s.flag id)
    (hgrants : t.grants id = s.grants id) : t.TellsHistory id where
  alternates := hgrants ▸ hs.alternates
  agrees := by rw [hflag, hgrants, hs.agrees]

theorem bypassed_id (now : Instant) (user : User) (data : StaffPatch) :
    (bypassed now user data).id = user.id := by
  unfold bypassed
  dsimp only
  split <;> rfl

theorem bypassed_subscriptionBypass (now : Instant) (user : User) (data : StaffPatch) :
    (bypassed now user data).subscriptionBypass = (data.apply user).subscriptionBypass := by
  unfold bypassed
  dsimp only
  split <;> rfl

/-- The line of a PATCH is about its user and shows the flag it leaves. -/
theorem grants_journalLine (now : Instant) (actor user : User) (data : StaffPatch) :
    ((journalLine now actor user data).filter (·.target == id)).map (·.granted) =
      if user.id = id ∧ (data.apply user).subscriptionBypass ≠ user.subscriptionBypass then
        [(data.apply user).subscriptionBypass] else [] := by
  have htarget : (data.apply user).id = user.id := rfl
  unfold journalLine
  dsimp only
  by_cases hchange : (data.apply user).subscriptionBypass ≠ user.subscriptionBypass
  · by_cases hid : user.id = id <;> simp [hchange, htarget, hid]
  · simp [hchange]

/-- The flag of a row after a save of a whole instance. -/
theorem flag_put (users : Table User) (user : User) :
    ((users.put user).get? id).map (·.subscriptionBypass) =
      if id = user.id then some user.subscriptionBypass
      else (users.get? id).map (·.subscriptionBypass) := by
  rw [Table.get?_put, pk_user]
  split <;> rfl

/-- A staff PATCH keeps the history of its user exactly when it writes over the flag it read. -/
theorem staff_tellsHistory_iff (hs : s.TellsHistory id) {stored : Bool}
    (hstored : s.flag id = some stored) (rid : ℕ) (input : AccountInput) (actor : User)
    {user : User} (hid : user.id = id) (data : StaffPatch) :
    (s.advance django rid input (.staff actor user data)).TellsHistory id ↔
      user.subscriptionBypass = stored := by
  set written := (data.apply user).subscriptionBypass with hwritten
  have hgrants : false :: (s.advance django rid input (.staff actor user data)).grants id =
      (false :: s.grants id) ++
        if written ≠ user.subscriptionBypass then [written] else [] := by
    change false :: (((s.journal ++ journalLine input.now actor user data).filter _).map _) = _
    rw [List.filter_append, List.map_append, grants_journalLine]
    simp only [hid, true_and, ← hwritten]
    rfl
  have hflag : (s.advance django rid input (.staff actor user data)).flag id = some written := by
    change ((s.users.put (bypassed input.now user data)).get? id).map _ = _
    rw [flag_put, bypassed_id, if_pos hid.symm, bypassed_subscriptionBypass]
  rw [← alternates_append_iff written hs.alternates (hs.agrees.trans hstored), ← hgrants, ← hflag]
  exact ⟨fun h => ⟨h.alternates, h.agrees⟩, fun h => ⟨h.1, h.2⟩⟩

/-- A save with `update_fields` of other columns keeps the flags. -/
private theorem flag_saveColumns {columns : UserColumns} {user : User} {users : Table User}
    (hcolumns : ∀ row, (columns.copy user row).subscriptionBypass = row.subscriptionBypass)
    (hsave : saveColumns UserColumns.copy s.users columns user = some users) :
    (users.get? id).map (·.subscriptionBypass) = s.flag id := by
  obtain ⟨row, hrow, rfl⟩ := Option.map_eq_some_iff.mp hsave
  rw [flag_put, columns.id_copy]
  by_cases hid : id = row.id
  · have hkey : user.id = row.id := (Table.get?_eq_some.mp hrow).2.symm
    rw [if_pos hid, hcolumns, flag, hid, ← hkey, ← pk_user, hrow]
    rfl
  · rw [if_neg hid]
    rfl

private theorem TellsHistory.saveFields (hs : s.TellsHistory id) (rid : ℕ) (columns : UserColumns)
    (user : User) {next : Accounts → Accounts}
    (hcolumns : ∀ row, (columns.copy user row).subscriptionBypass = row.subscriptionBypass)
    (hnext : ∀ u, (next u).users = u.users ∧ (next u).journal = u.journal) :
    (s.saveFields rid columns user next).TellsHistory id := by
  unfold Accounts.saveFields
  split
  · next users hsave =>
    refine hs.of_eq ?_ ?_
    · unfold flag
      rw [(hnext _).1]
      exact flag_saveColumns hcolumns hsave
    · unfold grants
      rw [(hnext _).2]
  · exact hs.of_eq rfl rfl

/-- A save of the whole row of another user, or one that writes over the flag it read. -/
private theorem stored_of_savesFlagRead {user : User}
    (hok : (user.id != id || s.flag id == some user.subscriptionBypass) = true) :
    user.id ≠ id ∨ user.id = id ∧ s.flag id = some user.subscriptionBypass := by
  by_cases hid : user.id = id
  · exact Or.inr ⟨hid, by simpa [hid] using hok⟩
  · exact Or.inl hid

/-- One action. -/
theorem TellsHistory.step {a : AccountAction} (hs : s.TellsHistory id)
    (hok : SavesFlagRead id s a) (h : s.step django a = some t) : t.TellsHistory id := by
  cases a with
  | request rid now r =>
    simp only [Accounts.step] at h
    split at h
    · obtain rfl := Option.some.inj h
      unfold begin
      split <;> exact hs.of_eq rfl rfl
    · simp at h
  | advance rid input =>
    obtain ⟨p, hp, rfl⟩ := Option.map_eq_some_iff.mp h
    cases p with
    | profile user language =>
      have hread : user.id ≠ id ∨ user.id = id ∧ s.flag id = some user.subscriptionBypass :=
        stored_of_savesFlagRead (by simpa only [SavesFlagRead, savesFlagRead, hp] using hok)
      refine hs.of_eq ?_ rfl
      change ((s.users.put { user with language }).get? id).map _ = _
      rw [flag_put]
      rcases hread with hother | ⟨hid, hstored⟩
      · rw [if_neg (Ne.symm hother)]
        rfl
      · rw [if_pos hid.symm, hstored]
    | staff actor user data =>
      have hread : user.id ≠ id ∨ user.id = id ∧ s.flag id = some user.subscriptionBypass :=
        stored_of_savesFlagRead (by simpa only [SavesFlagRead, savesFlagRead, hp] using hok)
      rcases hread with hother | ⟨hid, hstored⟩
      · refine hs.of_eq ?_ ?_
        · change ((s.users.put (bypassed input.now user data)).get? id).map _ = _
          rw [flag_put, bypassed_id, if_neg (Ne.symm hother)]
          rfl
        · change ((s.journal ++ journalLine input.now actor user data).filter _).map _ = _
          rw [List.filter_append, List.map_append, grants_journalLine,
            if_neg fun hboth => hother hboth.1, List.append_nil]
          rfl
      · exact (staff_tellsHistory_iff hs hstored rid input actor hid data).mpr rfl
    | changing | revoking | blacklisting => exact hs.of_eq rfl rfl
    | rotating user pending =>
      simp only [advance]
      exact hs.saveFields rid _ _ (fun _ => rfl) fun _ => ⟨rfl, rfl⟩
    | resetting user password =>
      simp only [advance]
      exact hs.saveFields rid _ _ (fun _ => rfl) fun _ => ⟨rfl, rfl⟩
    | confirming user =>
      simp only [advance]
      split
      · exact hs.saveFields rid _ _ (fun _ => rfl) fun _ => ⟨rfl, rfl⟩
      · exact hs.of_eq rfl rfl

end Accounts

/-- In every run in which each save of a user's whole row writes over the flag that its request
read, the journal tells the history of that user. -/
theorem bypass_journal_tells_history {django : Django} {s t : Accounts} {id : ℕ}
    (hflag : s.flag id = some false) (hjournal : s.grants id = [])
    (h : (accounts django).Reach (Accounts.SavesFlagRead id) s t) : t.TellsHistory id := by
  have hpreserves : (accounts django).Preserves (Accounts.SavesFlagRead id)
      (Accounts.TellsHistory · id) :=
    fun _ _ _ hu hok hstep => hu.step hok hstep
  exact h.invariant hpreserves ⟨by simp [hjournal], by simp [hjournal, hflag]⟩

namespace Sample

/-- A member of the staff and a user. -/
def staffed : Accounts where
  users := (Table.empty.put user).put { user with id := 2, email := "staff@b", isSuperuser := true }

end Sample

/-- A grant, then a revocation. -/
theorem sample_bypass_journal_tells_history :
    ∃ t : Accounts, t.grants 1 = [true, false] ∧ t.TellsHistory 1 := by
  obtain ⟨t, hreach, ht⟩ := System.exists_reach_of_guardedRun (accounts Sample.django)
    (Accounts.SavesFlagRead 1) Sample.staffed
    [.request 1 0 (.staff 2 1 { subscriptionBypass := some true }), .advance 1 {},
      .request 2 0 (.staff 2 1 { subscriptionBypass := some false }), .advance 2 {}]
    (fun t => decide (t.grants 1 = [true, false])) (by decide)
  exact ⟨t, of_decide_eq_true ht, bypass_journal_tells_history rfl rfl hreach⟩

/-- Two PATCHes that offer the access, the second read before the first is committed: the journal
shows two grants in a row, and no request is under way. -/
theorem grant_journalled_twice :
    ∃ t : Accounts, (accounts Sample.django).Reach (fun _ _ => True) Sample.staffed t ∧
      t.answers = [(2, "ok"), (1, "ok")] ∧ t.grants 1 = [true, true] ∧ ¬t.TellsHistory 1 := by
  obtain ⟨t, hreach, ht⟩ := System.exists_reach_of_guardedRun (accounts Sample.django)
    (fun _ _ => True) Sample.staffed
    [.request 1 0 (.staff 2 1 { subscriptionBypass := some true }),
      .request 2 0 (.staff 2 1 { subscriptionBypass := some true }),
      .advance 1 {}, .advance 2 {}]
    (fun t => decide (t.answers = [(2, "ok"), (1, "ok")]) && decide (t.grants 1 = [true, true]))
    (by decide)
  simp only [Bool.and_eq_true, decide_eq_true_eq] at ht
  obtain ⟨hanswers, hgrants⟩ := ht
  refine ⟨t, hreach, hanswers, hgrants, fun htells => ?_⟩
  have halternates := htells.alternates
  rw [hgrants] at halternates
  simp at halternates

end PushIT
