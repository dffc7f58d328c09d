import HayaSend.Foundations.UndoLog

/-!
# Log retention

`applyLegacyLogRetention` gives every log group of a list the same retention, one after the other.
When a call of the client fails for good it puts back what it changed, the last change first. The
list may name groups that do not exist, groups that have the retention already, and a group more
than once.

What the loop has changed is an undo log of the retentions (`Applied.undoes`): a group that has the
new retention is not changed again. Both loops call the client up to three times for each change;
which of the calls fail, and how, is a pattern over the calls of the run.
-/

namespace HayaSend

/-! ## The client -/

structure ClientError where
  name : String
  message : String
  deriving DecidableEq, Repr

structure LogGroupState where
  exists_ : Bool
  retentionInDays : Option ℕ := none
  deriving DecidableEq, Repr

/-- The log groups of the account, and how often the client was called. -/
structure LogGroups where
  present : String → Bool
  retention : String → Option ℕ
  calls : ℕ := 0

/-- The errors of the calls that fail. -/
abbrev FailurePattern := ℕ → Option ClientError

abbrev ClientCall (α : Type) := LogGroups → Except ClientError α × LogGroups

namespace LogGroups

/-- The call does this, unless it fails; a failed call has no effect. -/
def call {α : Type} (fails : FailurePattern)
    (answer : (String → Bool) → (String → Option ℕ) → α)
    (effect : (String → Option ℕ) → String → Option ℕ) : ClientCall α := fun s =>
  match fails s.calls with
  | some error => (.error error, { s with calls := s.calls + 1 })
  | none => (.ok (answer s.present s.retention),
      { s with retention := effect s.retention, calls := s.calls + 1 })

/-- `client.describe` -/
def describe (fails : FailurePattern) (logGroupName : String) : ClientCall LogGroupState :=
  call fails (fun present retention =>
    if present logGroupName then ⟨true, retention logGroupName⟩ else ⟨false, none⟩) id

/-- `client.put` -/
def put (fails : FailurePattern) (logGroupName : String) (retentionInDays : ℕ) : ClientCall Unit :=
  call fails (fun _ _ => ()) fun retention =>
    Function.update retention logGroupName (some retentionInDays)

/-- `client.delete` -/
def delete (fails : FailurePattern) (logGroupName : String) : ClientCall Unit :=
  call fails (fun _ _ => ()) fun retention => Function.update retention logGroupName none

end LogGroups

/-- `retryableErrors` -/
def ClientError.isRetryable (error : ClientError) : Bool :=
  ["OperationAbortedException", "ServiceUnavailableException", "ThrottlingException"].contains
    error.name

/-- The attempts of `retry` that are left after the next one. -/
def retryTimes {α : Type} (operation : ClientCall α) : ℕ → ClientCall α
  | 0, s => operation s
  | attempts + 1, s =>
    match operation s with
    | (.ok value, s') => (.ok value, s')
    | (.error error, s') =>
      if error.isRetryable then retryTimes operation attempts s' else (.error error, s')

/-- `retry` -/
def retry {α : Type} (operation : ClientCall α) : ClientCall α := retryTimes operation 2

/-! ## applyLegacyLogRetention -/

structure RetentionChange where
  logGroupName : String
  previousRetentionInDays : Option ℕ := none
  deriving DecidableEq, Repr

structure LogRetentionResult where
  unchanged : ℕ := 0
  updated : ℕ := 0
  missing : ℕ := 0
  deriving DecidableEq, Repr

/-- How a run ends. A rollback error stands with the group it is about. -/
inductive RetentionOutcome
  | returned (result : LogRetentionResult)
  | threw (error : ClientError)
  /-- The `AggregateError` -/
  | aggregate (error : ClientError) (rollbackErrors : List (String × ClientError))
  deriving DecidableEq, Repr

/-- The first loop: the result, or the error that ended it, and what was changed. -/
def applyRetention (fails : FailurePattern) (retentionInDays : ℕ) :
    List String → List RetentionChange → LogRetentionResult → LogGroups →
      Except ClientError LogRetentionResult × List RetentionChange × LogGroups
  | [], changed, result, s => (.ok result, changed, s)
  | logGroupName :: names, changed, result, s =>
    match retry (LogGroups.describe fails logGroupName) s with
    | (.error error, s) => (.error error, changed, s)
    | (.ok previous, s) =>
      if !previous.exists_ then
        applyRetention fails retentionInDays names changed
          { result with missing := result.missing + 1 } s
      else if previous.retentionInDays = some retentionInDays then
        applyRetention fails retentionInDays names changed
          { result with unchanged := result.unchanged + 1 } s
      else
        match retry (LogGroups.put fails logGroupName retentionInDays) s with
        | (.error error, s) => (.error error, changed, s)
        | (.ok (), s) =>
          applyRetention fails retentionInDays names
            (changed ++ [⟨logGroupName, previous.retentionInDays⟩])
            { result with updated := result.updated + 1 } s

/-- The call that puts a change back. -/
def RetentionChange.restore (fails : FailurePattern) (change : RetentionChange) :
    ClientCall Unit :=
  match change.previousRetentionInDays with
  | none => LogGroups.delete fails change.logGroupName
  | some previous => LogGroups.put fails change.logGroupName previous

/-- The second loop. -/
def rollbackRetention (fails : FailurePattern) :
    List RetentionChange → List (String × ClientError) → LogGroups →
      List (String × ClientError) × LogGroups
  | [], rollbackErrors, s => (rollbackErrors, s)
  | change :: changes, rollbackErrors, s =>
    match retry (change.restore fails) s with
    | (.ok (), s) => rollbackRetention fails changes rollbackErrors s
    | (.error error, s) =>
      rollbackRetention fails changes (rollbackErrors ++ [(change.logGroupName, error)]) s

/-- `applyLegacyLogRetention` -/
def applyLegacyLogRetention (fails : FailurePattern) (logGroupNames : List String)
    (retentionInDays : ℕ) (s : LogGroups) : RetentionOutcome × LogGroups :=
  match applyRetention fails retentionInDays logGroupNames [] {} s with
  | (.ok result, _, s) => (.returned result, s)
  | (.error error, changed, s) =>
    match rollbackRetention fails changed.reverse [] s with
    | ([], s) => (.threw error, s)
    | (rollbackErrors, s) => (.aggregate error rollbackErrors, s)

/-! ## Calls that are made again -/

section Calls

variable {α : Type} {fails : FailurePattern}
  {answer : (String → Bool) → (String → Option ℕ) → α}
  {effect : (String → Option ℕ) → String → Option ℕ} {s s' : LogGroups}

/-- However often it was made, the call answered and had its effect, or failed and had none; the
error is the one that the last attempt failed with. -/
theorem retryTimes_call {attempts : ℕ} {answered : Except ClientError α}
    (h : retryTimes (LogGroups.call fails answer effect) attempts s = (answered, s')) :
    s'.present = s.present ∧
      ((answered = .ok (answer s.present s.retention) ∧ s'.retention = effect s.retention) ∨
        ∃ error, answered = .error error ∧ s'.retention = s.retention ∧
          ∃ n, s'.calls = n + 1 ∧ fails n = some error) := by
  induction attempts generalizing s with
  | zero =>
    rw [retryTimes, LogGroups.call] at h
    split at h
    · rename_i error hfails
      obtain ⟨rfl, rfl⟩ := Prod.mk.inj h
      exact ⟨rfl, Or.inr ⟨error, rfl, rfl, s.calls, rfl, hfails⟩⟩
    · obtain ⟨rfl, rfl⟩ := Prod.mk.inj h
      exact ⟨rfl, Or.inl ⟨rfl, rfl⟩⟩
  | succ attempts ih =>
    rw [retryTimes, LogGroups.call] at h
    cases hfails : fails s.calls with
    | none =>
      rw [hfails] at h
      obtain ⟨rfl, rfl⟩ := Prod.mk.inj h
      exact ⟨rfl, Or.inl ⟨rfl, rfl⟩⟩
    | some error =>
      rw [hfails] at h
      dsimp only at h
      split_ifs at h
      · exact ih (s := { s with calls := s.calls + 1 }) h
      · obtain ⟨rfl, rfl⟩ := Prod.mk.inj h
        exact ⟨rfl, Or.inr ⟨error, rfl, rfl, s.calls, rfl, hfails⟩⟩

theorem retry_call_ok {value : α}
    (h : retry (LogGroups.call fails answer effect) s = (.ok value, s')) :
    value = answer s.present s.retention ∧ s'.present = s.present ∧
      s'.retention = effect s.retention := by
  obtain ⟨hpresent, ⟨hvalue, hretention⟩ | ⟨_, herror, -, -⟩⟩ := retryTimes_call h
  · exact ⟨Except.ok.inj hvalue, hpresent, hretention⟩
  · cases herror

theorem retry_call_error {error : ClientError}
    (h : retry (LogGroups.call fails answer effect) s = (.error error, s')) :
    s'.present = s.present ∧ s'.retention = s.retention ∧
      ∃ n, s'.calls = n + 1 ∧ fails n = some error := by
  obtain ⟨hpresent, ⟨hvalue, -⟩ | ⟨_, herror, hretention, hfailed⟩⟩ := retryTimes_call h
  · cases hvalue
  · obtain rfl := Except.error.inj herror
    exact ⟨hpresent, hretention, hfailed⟩

end Calls

/-- A retention that is put back. -/
theorem RetentionChange.restore_eq (fails : FailurePattern) (change : RetentionChange) :
    change.restore fails = LogGroups.call fails (fun _ _ => ()) fun retention =>
      Function.update retention change.logGroupName change.previousRetentionInDays := by
  unfold restore
  split <;> rename_i hprevious <;> rw [hprevious] <;> rfl

/-! ## The first loop -/

/-- What a change is in the undo log. -/
def RetentionChange.entry (change : RetentionChange) : String × Option ℕ :=
  (change.logGroupName, change.previousRetentionInDays)

theorem map_entry_fst (changed : List RetentionChange) :
    (changed.map RetentionChange.entry).map Prod.fst = changed.map (·.logGroupName) := by
  rw [List.map_map]
  rfl

/-- What the first loop has done to the groups before the rest of the list. -/
structure Applied (start : LogGroups) (retentionInDays : ℕ) (done : List String)
    (changed : List RetentionChange) (result : LogRetentionResult) (s : LogGroups) : Prop where
  present : s.present = start.present
  undoes : Undoes (changed.map RetentionChange.entry) start.retention s.retention
  target : ∀ change ∈ changed, s.retention change.logGroupName = some retentionInDays
  reached : ∀ name ∈ done, start.present name = true → s.retention name = some retentionInDays
  counted : result.unchanged + result.updated + result.missing = done.length

namespace Applied

variable {start s s' : LogGroups} {retentionInDays : ℕ} {done : List String}
  {changed : List RetentionChange} {result : LogRetentionResult} {logGroupName : String}

theorem init (start : LogGroups) (retentionInDays : ℕ) :
    Applied start retentionInDays [] [] {} start where
  present := rfl
  undoes := Undoes.nil _
  target _ h := absurd h List.not_mem_nil
  reached _ h := absurd h List.not_mem_nil
  counted := rfl

/-- A call that has no effect. -/
theorem called (h : Applied start retentionInDays done changed result s)
    (hpresent : s'.present = s.present) (hretention : s'.retention = s.retention) :
    Applied start retentionInDays done changed result s' where
  present := hpresent.trans h.present
  undoes := hretention ▸ h.undoes
  target change hchange := hretention ▸ h.target change hchange
  reached name hname hpresent := hretention ▸ h.reached name hname hpresent
  counted := h.counted

/-- A group that is missing, or has the retention, is passed over. -/
theorem pass (h : Applied start retentionInDays done changed result s)
    (hgroup : s.present logGroupName = true → s.retention logGroupName = some retentionInDays)
    {result' : LogRetentionResult} (hcount : result'.unchanged + result'.updated + result'.missing =
      result.unchanged + result.updated + result.missing + 1) :
    Applied start retentionInDays (done ++ [logGroupName]) changed result' s where
  present := h.present
  undoes := h.undoes
  target := h.target
  reached name hname hpresent := by
    rcases List.mem_append.mp hname with hname | hname
    · exact h.reached name hname hpresent
    · obtain rfl := List.mem_singleton.mp hname
      exact hgroup (h.present ▸ hpresent)
  counted := by rw [hcount, h.counted, List.length_append, List.length_singleton]

/-- A group that gets the retention has not been changed before. -/
theorem update (h : Applied start retentionInDays done changed result s)
    (hgroup : s.retention logGroupName ≠ some retentionInDays)
    (hpresent : s'.present = s.present)
    (hretention : s'.retention =
      Function.update s.retention logGroupName (some retentionInDays)) :
    Applied start retentionInDays (done ++ [logGroupName])
      (changed ++ [⟨logGroupName, s.retention logGroupName⟩])
      { result with updated := result.updated + 1 } s' where
  present := hpresent.trans h.present
  undoes := by
    have hnew : logGroupName ∉ (changed.map RetentionChange.entry).map Prod.fst := by
      rw [map_entry_fst]
      intro hmem
      obtain ⟨change, hchange, rfl⟩ := List.mem_map.mp hmem
      exact hgroup (h.target change hchange)
    rw [hretention, List.map_append]
    exact h.undoes.record hnew hgroup
  target change hchange := by
    rw [hretention]
    by_cases heq : change.logGroupName = logGroupName
    · rw [heq, Function.update_self]
    · rw [Function.update_of_ne heq]
      rcases List.mem_append.mp hchange with hchange | hchange
      · exact h.target change hchange
      · obtain rfl := List.mem_singleton.mp hchange
        exact absurd rfl heq
  reached name hname hstart := by
    rw [hretention]
    by_cases heq : name = logGroupName
    · rw [heq, Function.update_self]
    · rw [Function.update_of_ne heq]
      rcases List.mem_append.mp hname with hname | hname
      · exact h.reached name hname hstart
      · exact absurd (List.mem_singleton.mp hname) heq
  counted := by
    have hcounted := h.counted
    rw [List.length_append, List.length_singleton]
    dsimp only
    omega

end Applied

variable {fails : FailurePattern} {retentionInDays : ℕ} {start s s' : LogGroups}

/-- The first loop keeps what it has done, to its end or to the error. -/
theorem applyRetention_applied {names done : List String} {changed changed' : List RetentionChange}
    {result : LogRetentionResult} {ended : Except ClientError LogRetentionResult}
    (h : Applied start retentionInDays done changed result s)
    (hrun : applyRetention fails retentionInDays names changed result s = (ended, changed', s')) :
    ∃ done' result', Applied start retentionInDays done' changed' result' s' ∧
      ∀ value, ended = .ok value → done' = done ++ names ∧ result' = value := by
  induction names generalizing done changed result s with
  | nil =>
    rw [applyRetention] at hrun
    obtain ⟨rfl, hrest⟩ := Prod.mk.inj hrun
    obtain ⟨rfl, rfl⟩ := Prod.mk.inj hrest
    exact ⟨done, result, h, fun value hvalue => ⟨by rw [List.append_nil], Except.ok.inj hvalue⟩⟩
  | cons logGroupName names ih =>
    have hnames : done ++ logGroupName :: names = done ++ [logGroupName] ++ names := by simp
    rw [hnames]
    rw [applyRetention] at hrun
    split at hrun
    · rename_i error s₁ hdescribe
      obtain ⟨hpresent, hretention, -⟩ := retry_call_error hdescribe
      obtain ⟨rfl, hrest⟩ := Prod.mk.inj hrun
      obtain ⟨rfl, rfl⟩ := Prod.mk.inj hrest
      exact ⟨done, result, h.called hpresent hretention, fun value hvalue => by cases hvalue⟩
    · rename_i previous s₁ hdescribe
      obtain ⟨hprevious, hpresent, hretention⟩ := retry_call_ok hdescribe
      have h₁ := h.called hpresent hretention
      split_ifs at hrun with hexists hsame
      · refine ih (h₁.pass (fun hgroup => ?_) (Nat.add_assoc _ _ _).symm) hrun
        rw [hpresent] at hgroup
        rw [hprevious, if_pos hgroup] at hexists
        cases hexists
      · refine ih (h₁.pass (fun hgroup => ?_) (by dsimp only; omega)) hrun
        rw [hpresent] at hgroup
        rw [hprevious, if_pos hgroup] at hsame
        rw [hretention]
        exact hsame
      · have hgroup : s.present logGroupName = true := by
          by_contra hgroup
          rw [hprevious, if_neg hgroup] at hexists
          exact hexists rfl
        have hretained : previous.retentionInDays = s₁.retention logGroupName := by
          rw [hprevious, if_pos hgroup, hretention]
          rfl
        split at hrun
        · rename_i error s₂ hput
          obtain ⟨hpresent', hretention', -⟩ := retry_call_error hput
          obtain ⟨rfl, hrest⟩ := Prod.mk.inj hrun
          obtain ⟨rfl, rfl⟩ := Prod.mk.inj hrest
          exact ⟨done, result, h₁.called hpresent' hretention', fun value hvalue => by cases hvalue⟩
        · rename_i s₂ hput
          obtain ⟨-, hpresent', hretention'⟩ := retry_call_ok hput
          rw [hretained] at hrun hsame
          exact ih (h₁.update hsame hpresent' hretention') hrun

/-- The error that ends the first loop is the one that its last call failed with. -/
theorem applyRetention_error {names : List String} {changed changed' : List RetentionChange}
    {result : LogRetentionResult} {error : ClientError}
    (hrun : applyRetention fails retentionInDays names changed result s =
      (.error error, changed', s')) :
    ∃ n, s'.calls = n + 1 ∧ fails n = some error := by
  induction names generalizing changed result s with
  | nil => cases (Prod.mk.inj hrun).1
  | cons logGroupName names ih =>
    rw [applyRetention] at hrun
    split at hrun
    · rename_i thrown s₁ hdescribe
      obtain ⟨herror, hrest⟩ := Prod.mk.inj hrun
      obtain ⟨-, rfl⟩ := Prod.mk.inj hrest
      obtain rfl := Except.error.inj herror
      exact (retry_call_error hdescribe).2.2
    · split_ifs at hrun
      · exact ih hrun
      · exact ih hrun
      · split at hrun
        · rename_i thrown s₂ hput
          obtain ⟨herror, hrest⟩ := Prod.mk.inj hrun
          obtain ⟨-, rfl⟩ := Prod.mk.inj hrest
          obtain rfl := Except.error.inj herror
          exact (retry_call_error hput).2.2
        · exact ih hrun

/-! ## The second loop -/

/-- The second loop takes out of the undo log what it puts back, and leaves what it cannot. -/
theorem rollbackRetention_undoes {changes : List RetentionChange}
    {failed : List (String × Option ℕ)} {errors errors' : List (String × ClientError)}
    {before : String → Option ℕ}
    (h : Undoes (changes.map RetentionChange.entry ++ failed) before s.retention)
    (herrors : failed.map Prod.fst = errors.map Prod.fst)
    (hrun : rollbackRetention fails changes errors s = (errors', s')) :
    ∃ failed', Undoes failed' before s'.retention ∧
      failed'.map Prod.fst = errors'.map Prod.fst := by
  induction changes generalizing failed errors s with
  | nil =>
    rw [rollbackRetention] at hrun
    obtain ⟨rfl, rfl⟩ := Prod.mk.inj hrun
    exact ⟨failed, h, herrors⟩
  | cons change changes ih =>
    rw [rollbackRetention, RetentionChange.restore_eq] at hrun
    split at hrun
    · rename_i s₁ hrestore
      obtain ⟨-, -, hretention⟩ := retry_call_ok hrestore
      refine ih ?_ herrors hrun
      rw [hretention]
      exact h.restore
    · rename_i error s₁ hrestore
      obtain ⟨-, hretention, -⟩ := retry_call_error hrestore
      have hlog : Undoes (changes.map RetentionChange.entry ++ (failed ++ [change.entry])) before
          s₁.retention := by
        rw [hretention]
        refine h.perm ?_
        rw [List.map_cons, List.cons_append, ← List.append_assoc]
        exact (List.perm_append_singleton _ _).symm
      refine ih hlog ?_ hrun
      rw [List.map_append, List.map_append, herrors]
      rfl

/-! ## Runs -/

/-- **Applied or rolled back.** A run that returns has given the retention to every group of the
list that exists, and counted the list. One that throws the error has left every retention as it
was, and after an `AggregateError` those differ whose rollback failed. -/
theorem applyLegacyLogRetention_spec (fails : FailurePattern) (logGroupNames : List String)
    (retentionInDays : ℕ) (s : LogGroups) :
    match applyLegacyLogRetention fails logGroupNames retentionInDays s with
    | (.returned result, s') =>
      (∀ name ∈ logGroupNames, s.present name = true → s'.retention name = some retentionInDays) ∧
        result.unchanged + result.updated + result.missing = logGroupNames.length
    | (.threw _, s') => s'.retention = s.retention
    | (.aggregate _ rollbackErrors, s') =>
      ∀ name, s'.retention name ≠ s.retention name ↔ name ∈ rollbackErrors.map Prod.fst := by
  unfold applyLegacyLogRetention
  obtain ⟨ended, changed, s₁, hrun⟩ : ∃ ended changed s₁,
      applyRetention fails retentionInDays logGroupNames [] {} s = (ended, changed, s₁) :=
    ⟨_, _, _, rfl⟩
  obtain ⟨done, result, happlied, hended⟩ := applyRetention_applied (Applied.init s _) hrun
  rw [hrun]
  cases ended with
  | ok value =>
    obtain ⟨hdone, rfl⟩ := hended value rfl
    rw [List.nil_append] at hdone
    subst hdone
    exact ⟨happlied.reached, happlied.counted⟩
  | error error =>
    obtain ⟨errors, s₂, hrollback⟩ : ∃ errors s₂,
        rollbackRetention fails changed.reverse [] s₁ = (errors, s₂) := ⟨_, _, rfl⟩
    have hlog : Undoes (changed.reverse.map RetentionChange.entry ++ []) s.retention
        s₁.retention := by
      rw [List.append_nil]
      exact happlied.undoes.perm (changed.reverse_perm.map _).symm
    obtain ⟨failed, hundoes, hfailed⟩ := rollbackRetention_undoes hlog rfl hrollback
    dsimp only
    rw [hrollback]
    cases errors with
    | nil =>
      obtain rfl := List.map_eq_nil_iff.mp hfailed
      exact hundoes.eq_of_nil
    | cons first rest =>
      intro name
      rw [← hfailed]
      exact hundoes.ne_iff name

/-- What the first loop of a run ended with. -/
def RetentionOutcome.ended : RetentionOutcome → Except ClientError LogRetentionResult
  | returned result => .ok result
  | threw error | aggregate error _ => .error error

/-- A run returns what the first loop returns, and throws, alone or first of an `AggregateError`,
the error that ended it. -/
theorem ended_applyLegacyLogRetention (fails : FailurePattern) (logGroupNames : List String)
    (retentionInDays : ℕ) (s : LogGroups) :
    (applyLegacyLogRetention fails logGroupNames retentionInDays s).1.ended =
      (applyRetention fails retentionInDays logGroupNames [] {} s).1 := by
  unfold applyLegacyLogRetention
  split
  · rename_i hrun
    rw [hrun]
    rfl
  · rename_i hrun
    rw [hrun]
    split <;> rfl

/-- A run whose calls never fail returns. -/
theorem applyLegacyLogRetention_returns (hfails : ∀ n, fails n = none) (logGroupNames : List String)
    (retentionInDays : ℕ) (s : LogGroups) :
    ∃ result, (applyLegacyLogRetention fails logGroupNames retentionInDays s).1 =
      .returned result := by
  have hended := ended_applyLegacyLogRetention fails logGroupNames retentionInDays s
  obtain ⟨ended, changed, s₁, hrun⟩ : ∃ ended changed s₁,
      applyRetention fails retentionInDays logGroupNames [] {} s = (ended, changed, s₁) :=
    ⟨_, _, _, rfl⟩
  rw [hrun] at hended
  cases ended with
  | error error =>
    obtain ⟨n, -, hfailed⟩ := applyRetention_error hrun
    rw [hfails n] at hfailed
    cases hfailed
  | ok result =>
    cases houtcome : (applyLegacyLogRetention fails logGroupNames retentionInDays s).1 with
    | returned result => exact ⟨result, rfl⟩
    | threw error | aggregate error rollbackErrors =>
      rw [houtcome] at hended
      cases hended

/-- The second put is throttled for good, and so is every call after it. -/
example :
    let throttled : ClientError := ⟨"ThrottlingException", "Rate exceeded"⟩
    (applyLegacyLogRetention (fun n => if 3 ≤ n then some throttled else none)
        ["/aws/lambda/api", "/aws/lambda/worker"] 30
        { present := fun _ => true, retention := fun _ => none }).1 =
      .aggregate throttled [("/aws/lambda/api", throttled)] := by
  decide +kernel

end HayaSend
