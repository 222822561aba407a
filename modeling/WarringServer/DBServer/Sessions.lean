import WarringServer.DBServer.Consistency
import WarringServer.DBServer.Readers
import WarringServer.DBServer.QueryTask

/-!
# Sessions — one login at a time

The flag `on_off` of an account is a test-and-set flag: a login sets it and answers by what it
was, and only the last upload of a character clears it. Nothing else touches it,
whatever the readers do at the same time.

* `Query.step_flags` — every step does to the flags what `flagOps` says of it;
* `single_session` — between two logins that are both answered with success, a last
  upload of the account has taken effect.
-/

namespace WarringServer.DBServer

open Message Collection MakeDocHelper Run

-- ---------------------------------------------------------------------------
-- The flags
-- ---------------------------------------------------------------------------

/-- The flag `on_off` of an account. -/
def onOff (accounts : List AccountDocument) (accountName : Bytes) : Bool :=
  accounts.any fun d => d.account = accountName ∧ d.onOff = true

def AccountDocument.flag (d : AccountDocument) : Bytes × Bool := (d.account, d.onOff)

theorem onOff_of_flags {accounts accounts' : List AccountDocument}
    (h : accounts'.map AccountDocument.flag = accounts.map AccountDocument.flag) :
    onOff accounts' = onOff accounts := by
  have hFlags : ∀ ds a, onOff ds a = (ds.map AccountDocument.flag).any fun x =>
      x.1 = a ∧ x.2 = true := by
    intro ds a
    rw [List.any_map]
    rfl
  funext a
  rw [hFlags, h, ← hFlags]

theorem onOff_eq_false {accounts : List AccountDocument} {accountName : Bytes}
    (h : accountName ∉ accounts.map AccountDocument.account) :
    onOff accounts accountName = false := by
  rw [onOff, List.any_eq_false]
  intro d hd
  rw [decide_eq_true_eq]
  rintro ⟨rfl, -⟩
  exact h (List.mem_map_of_mem hd)

/-- The update of one account sets its flag. -/
theorem onOff_updateFirst {accounts : List AccountDocument} {p : AccountDocument → Bool}
    {u : AccountDocument → AccountDocument} {d : AccountDocument} {b : Bool}
    (hNodup : (accounts.map AccountDocument.account).Nodup) (hFound : accounts.find? p = some d)
    (hAccount : (u d).account = d.account) (hFlag : (u d).onOff = b) :
    onOff (updateFirst p u accounts) = Function.update (onOff accounts) d.account b ∧
      onOff accounts d.account = d.onOff := by
  obtain ⟨hd, before, after, rfl, hBefore⟩ := split_of_find hFound
  rw [updateFirst_split hBefore hd]
  -- the other documents are of other accounts
  have hParts : d.account ∉ before.map AccountDocument.account ∧
      d.account ∉ after.map AccountDocument.account := by
    rw [List.map_append, List.map_cons, List.nodup_append, List.nodup_cons] at hNodup
    exact ⟨fun hMem => hNodup.2.2 _ hMem _ List.mem_cons_self rfl, hNodup.2.1.1⟩
  have hOnOff : ∀ x a, onOff (before ++ x :: after) a =
      (onOff before a || (decide (x.account = a ∧ x.onOff = true) || onOff after a)) := by
    intro x a
    rw [onOff, List.any_append, List.any_cons]
    rfl
  constructor
  · funext a
    rw [hOnOff, hAccount, hFlag]
    by_cases hName : a = d.account
    · subst hName
      rw [Function.update_self, onOff_eq_false hParts.1, onOff_eq_false hParts.2]
      simp
    · rw [Function.update_of_ne hName, hOnOff]
      simp [Ne.symm hName]
  · rw [hOnOff, onOff_eq_false hParts.1, onOff_eq_false hParts.2]
    simp

theorem nodup_accounts {accounts : List AccountDocument}
    (hUnique : Unique accountIndexes accounts) : (accounts.map AccountDocument.account).Nodup :=
  nodup_of_unique (by simp [accountIndexes]) hUnique

-- ---------------------------------------------------------------------------
-- What a step can do to the accounts
-- ---------------------------------------------------------------------------

/-- Without an effect, no flag changes. -/
theorem Query.flagOps_of_no_effect {q : Query} {outcome : Outcome}
    (hEffect : outcome.effective = false) {db : Database} {stage : Stage} :
    q.flagOps outcome db stage = [] := by
  unfold Query.flagOps
  split
  · simp [hEffect]
  · simp [hEffect]
  · rfl

/-- The accounts before and after a step, with what it does to a flag. -/
inductive AccountsMove (accounts : List AccountDocument) :
    List AccountDocument → List (TestAndSet.Op Bytes) → Prop where
  | stay : AccountsMove accounts accounts []
  | insert {d : AccountDocument} {accounts' : List AccountDocument} (hFlag : d.onOff = false)
      (h : insertOne accountIndexes d accounts = some accounts') :
      AccountsMove accounts accounts' []
  /-- A change of an array. -/
  | update {p : AccountDocument → Bool} {u : AccountDocument → AccountDocument}
      {r : List AccountDocument × Nat} (hFlag : ∀ d, (u d).flag = d.flag)
      (h : updateOne accountIndexes p u accounts = some r) : AccountsMove accounts r.1 []
  | upload (characterInfo : CharacterInfo) (now : Nat) :
      AccountsMove accounts (Database.setAccounts accounts characterInfo false now) []
  | lastUpload {characterInfo : CharacterInfo} {d : AccountDocument} (now : Nat)
      (hFound : accounts.find? (byAccount characterInfo.account) = some d) :
      AccountsMove accounts (Database.setAccounts accounts characterInfo true now)
        [.drop characterInfo.account]
  | login {accountName password : Bytes} {d : AccountDocument} (now : Nat)
      (hFound : accounts.find? (Query.byPassword accountName password) = some d) :
      AccountsMove accounts
        (updateFirst (Query.byPassword accountName password)
          (fun d => { d with onOff := true, lastLoginTime := now }) accounts)
        [.take accountName d.onOff]

namespace AccountsMove

variable {accounts accounts' : List AccountDocument} {ops : List (TestAndSet.Op Bytes)}

/-- An update that is not applied to any account. -/
theorem setAccounts_none {characterInfo : CharacterInfo}
    (h : accounts.find? (byAccount characterInfo.account) = none) (last : Bool) (now : Nat) :
    Database.setAccounts accounts characterInfo last now = accounts := by
  have hNone := none_of_find h
  have hLogout : updateFirst (byAccount characterInfo.account) (makeDocAccountLogout now) accounts =
      accounts := updateFirst_none hNone
  have hListed : ∀ d ∈ accounts,
      makeDocAccountAndCharacter characterInfo.account characterInfo.name d = false := by
    intro d hd
    have hOther : d.account ≠ characterInfo.account := by simpa [byAccount] using hNone d hd
    simp [makeDocAccountAndCharacter, hOther]
  rw [Database.setAccounts, hLogout, ite_self, updateFirst_none hListed]

/-- A step without an effect. -/
theorem of_no_effect (q : Query) {outcome : Outcome} (hEffect : outcome.effective = false)
    (now : Nat) (db : Database) (stage : Stage) :
    AccountsMove db.accounts (q.step outcome now db stage).1.accounts
      (q.flagOps outcome db stage) := by
  have hSame : (q.step outcome now db stage).1 = db := by
    unfold Query.step
    split
    all_goals try simp [Outcome.caught, Outcome.findOne, hEffect]
    split
    · rfl
    · split
      · rfl
      · rfl
  rw [hSame, Query.flagOps_of_no_effect hEffect]
  exact .stay

theorem caught_of_effective {outcome : Outcome} (h : outcome.effective = true) (db : Database)
    (r : Database × Int) : (outcome.caught db r).1 = r.1 := by
  rw [Outcome.caught, if_pos h]

theorem byPassword_account {accountName password : Bytes} {d : AccountDocument}
    (h : Query.byPassword accountName password d = true) : d.account = accountName :=
  (decide_eq_true_iff.mp h).1

/-- A login in terms of its filter. -/
theorem login_eq (db : Database) (accountName password : Bytes) (now : Nat) :
    db.matchAccountAndUpdateLoginState accountName password now =
      match db.accounts.find? (Query.byPassword accountName password) with
      | none => (db, 0)
      | some d =>
        ({ db with
            accounts := updateFirst (Query.byPassword accountName password)
              (fun d => { d with onOff := true, lastLoginTime := now }) db.accounts },
          if d.onOff then 2 else 1) := rfl

/-- **Every step is such a move.** -/
theorem of_step (q : Query) (outcome : Outcome) (now : Nat) (db : Database) (stage : Stage) :
    AccountsMove db.accounts (q.step outcome now db stage).1.accounts
      (q.flagOps outcome db stage) := by
  rcases hEffect : outcome.effective with _ | _
  · exact of_no_effect q hEffect now db stage
  rcases q with ⟨accountName, password, address⟩ | ⟨accountName, password⟩ | newCharacter |
    ⟨accountName, characterName⟩ | ⟨characterInfo, last⟩
  case addNewAccount =>
    rcases stage with _ | _ | _ | result | _
    case begin =>
      simp only [Query.step, Query.flagOps, caught_of_effective hEffect, Database.addNewAccount]
      split
      · rename_i hInsert
        exact .insert rfl hInsert
      · exact .stay
    all_goals exact .stay
  case matchAccountAndUpdateLoginState =>
    rcases stage with _ | _ | _ | result | _
    case begin =>
      simp only [Query.step, Query.flagOps, caught_of_effective hEffect, if_pos hEffect,
        login_eq]
      rcases hFound : db.accounts.find? (Query.byPassword accountName password) with _ | d
      · exact .stay
      · exact .login now hFound
    all_goals exact .stay
  case addNewCharacter =>
    rcases stage with _ | _ | _ | result | _
    case found =>
      simp only [Query.step, Query.flagOps, caught_of_effective hEffect]
      rcases hCommit : db.insertNewCharacter newCharacter with _ | db'
      · exact .stay
      · simp only [Database.insertNewCharacter, Option.bind_eq_bind, Option.bind_eq_some_iff,
          Option.pure_def, Option.some.injEq] at hCommit
        obtain ⟨r, hUpdate, characters, -, rfl⟩ := hCommit
        refine .update ?_ hUpdate
        intro d
        rfl
    all_goals exact .stay
  case removeCharacter =>
    rcases stage with _ | _ | _ | result | _
    case begin =>
      simp only [Query.step, Query.flagOps]
      split
      · exact .stay
      · rcases hUpdate : updateOne accountIndexes (byAccount accountName)
            (makeDocAccountRemoveCharacter characterName) db.accounts with _ | r
        · exact .stay
        · dsimp only
          rw [caught_of_effective hEffect]
          refine .update ?_ hUpdate
          intro d
          rfl
    case pulled =>
      simp only [Query.step, Query.flagOps, caught_of_effective hEffect]
      exact .stay
    all_goals exact .stay
  case updateCharacter =>
    rcases stage with _ | _ | _ | result | _
    case found =>
      simp only [Query.step, caught_of_effective hEffect, Database.setCharacter_eq]
      rcases last with _ | _
      · exact .upload characterInfo now
      · simp only [Query.flagOps, if_pos hEffect]
        rcases hFound : db.accounts.find? (byAccount characterInfo.account) with _ | d
        · rw [setAccounts_none hFound]
          exact .stay
        · exact .lastUpload now hFound
    all_goals
      rcases last with _ | _
      all_goals exact .stay

theorem flags_updateCharacter (characterInfo : CharacterInfo) (accounts : List AccountDocument) :
    (updateFirst (makeDocAccountAndCharacter characterInfo.account characterInfo.name)
      (makeDocAccountUpdateCharacter ⟨characterInfo.name, characterInfo.level,
        characterInfo.gender, characterInfo.occuption, characterInfo.state⟩ characterInfo.name)
      accounts).map AccountDocument.flag = accounts.map AccountDocument.flag := by
  refine map_updateFirst ?_ accounts
  intro d _
  rfl

/-- The unique indexes stay. -/
theorem unique (h : AccountsMove accounts accounts' ops)
    (hUnique : Unique accountIndexes accounts) : Unique accountIndexes accounts' := by
  rcases h with _ | ⟨-, hInsert⟩ | ⟨-, hUpdate⟩ | ⟨characterInfo, now⟩ | ⟨now, -⟩ | ⟨now, -⟩
  · exact hUnique
  · exact insertOne_unique hUnique hInsert
  · exact updateOne_unique hUnique hUpdate
  · exact Database.unique_of_names (Database.names_setAccounts ..) hUnique
  · exact Database.unique_of_names (Database.names_setAccounts ..) hUnique
  · refine Database.unique_of_names ?_ hUnique
    refine map_updateFirst ?_ accounts
    intro d _
    rfl

/-- **Flags.** A move does to the flags what is recorded of it, and reports the old values. -/
theorem flags (h : AccountsMove accounts accounts' ops) (hUnique : Unique accountIndexes accounts) :
    onOff accounts' = final TestAndSet.step (onOff accounts) ops ∧
      Each TestAndSet.step TestAndSet.Reported (onOff accounts) ops := by
  have hNodup := nodup_accounts hUnique
  rcases h with _ | @⟨d, _, hFlag, hInsert⟩ | @⟨p, u, r, hFlag, hUpdate⟩ | ⟨characterInfo, now⟩ |
    @⟨characterInfo, d, now, hFound⟩ | @⟨accountName, password, d, now, hFound⟩
  · exact ⟨rfl, trivial⟩
  · refine ⟨?_, trivial⟩
    obtain ⟨-, rfl⟩ := insertOne_eq_some hInsert
    funext a
    simp [onOff, hFlag]
  · exact ⟨onOff_of_flags (map_updateOne hUpdate fun d _ => hFlag d), trivial⟩
  · exact ⟨onOff_of_flags (flags_updateCharacter characterInfo accounts), trivial⟩
  · -- the first update clears the flag, the second one leaves it
    have hName : d.account = characterInfo.account := byAccount_iff.mp (List.find?_some hFound)
    obtain ⟨hClear, -⟩ := onOff_updateFirst (u := makeDocAccountLogout now) (b := false)
      hNodup hFound rfl rfl
    rw [hName] at hClear
    exact ⟨(onOff_of_flags (flags_updateCharacter characterInfo _)).trans hClear, trivial, trivial⟩
  · have hName : d.account = accountName := byPassword_account (List.find?_some hFound)
    obtain ⟨hSet, hOld⟩ := onOff_updateFirst (b := true)
      (u := fun d : AccountDocument => { d with onOff := true, lastLoginTime := now })
      hNodup hFound rfl rfl
    rw [hName] at hSet hOld
    exact ⟨hSet, hOld.symm, trivial⟩

end AccountsMove

-- ---------------------------------------------------------------------------
-- The thread of a step
-- ---------------------------------------------------------------------------

/-- The thread has returned from the call that performed the operation. -/
def Thread.Performed (t : Thread) : TestAndSet.Op Bytes → Prop
  | .take accountName _ => (∃ result, t.stage = .returned result) ∧
    ∃ password, t.query = .matchAccountAndUpdateLoginState accountName password
  | .drop accountName => (∃ result, t.stage = .returned result) ∧
    ∃ characterInfo, t.query = .updateCharacter characterInfo true ∧
      characterInfo.account = accountName

namespace Thread

variable {t : Thread} {outcome : Outcome} {now : Nat} {db : Database}

theorem Performed.returned {op : TestAndSet.Op Bytes} (h : t.Performed op) :
    ∃ result, t.stage = .returned result := by
  rcases op with ⟨accountName, old⟩ | accountName
  · exact h.1
  · exact h.1

/-- A call that has returned is over. -/
theorem step_returned {result : Int} (h : t.stage = .returned result) :
    t.step outcome now db = t ∧ t.query.flagOps outcome db t.stage = [] := by
  obtain ⟨query, stage, matched⟩ := t
  obtain rfl : stage = .returned result := h
  rcases query with ⟨accountName, password, address⟩ | ⟨accountName, password⟩ | newCharacter |
    ⟨accountName, characterName⟩ | ⟨characterInfo, last⟩
  case updateCharacter =>
    rcases last with _ | _
    all_goals simp [Thread.step, Query.step, Query.matching, Query.flagOps]
  all_goals simp [Thread.step, Query.step, Query.matching, Query.flagOps]

theorem Performed.step {op : TestAndSet.Op Bytes} (h : t.Performed op) :
    (t.step outcome now db).Performed op := by
  obtain ⟨result, hStage⟩ := h.returned
  rw [(step_returned hStage).1]
  exact h

/-- The thread of a recorded operation has performed it with this step, and it is the only one. -/
theorem performed_of_mem (now : Nat) {op : TestAndSet.Op Bytes}
    (h : op ∈ t.query.flagOps outcome db t.stage) :
    (t.step outcome now db).Performed op ∧ t.query.flagOps outcome db t.stage = [op] ∧
      ¬ ∃ result, t.stage = .returned result := by
  obtain ⟨query, stage, matched⟩ := t
  dsimp only at h ⊢
  rcases hEffect : outcome.effective with _ | _
  · rw [Query.flagOps_of_no_effect hEffect] at h
    cases h
  unfold Query.flagOps at h ⊢
  split at h
  · rename_i accountName password
    rw [if_pos hEffect] at h ⊢
    rcases hFound : db.accounts.find? (Query.byPassword accountName password) with _ | d
    · rw [hFound] at h
      cases h
    · rw [hFound] at h
      obtain rfl := List.mem_singleton.mp h
      exact ⟨⟨⟨_, rfl⟩, password, rfl⟩, rfl, by simp⟩
  · rename_i characterInfo
    rw [if_pos hEffect] at h ⊢
    rcases hFound : db.accounts.find? (byAccount characterInfo.account) with _ | d
    · rw [hFound] at h
      cases h
    · rw [hFound] at h
      obtain rfl := List.mem_singleton.mp h
      exact ⟨⟨⟨_, rfl⟩, characterInfo, rfl, rfl⟩, rfl, by simp⟩
  · cases h

/-- **A login that looks at the database.** It answers 1 if it has set a flag that was clear, and
0 only if its account and password are not there. -/
theorem step_login (outcome : Outcome) (now : Nat) (db : Database) {t : Thread}
    {accountName password : Bytes}
    (hQuery : t.query = .matchAccountAndUpdateLoginState accountName password)
    (hStage : t.stage = .begin) :
    ∃ result, (t.step outcome now db).stage = .returned result ∧
      (result = 1 → .take accountName false ∈ t.query.flagOps outcome db t.stage) ∧
      (t.query.matching db t.stage = true → result = 1 ∨ result = 2 ∨ result = -1) := by
  obtain ⟨query, stage, matched⟩ := t
  obtain rfl : query = .matchAccountAndUpdateLoginState accountName password := hQuery
  obtain rfl : stage = .begin := hStage
  refine ⟨_, rfl, ?_, ?_⟩
  · intro hResult
    rcases outcome with _ | effect
    · simp only [reduceIte, AccountsMove.login_eq] at hResult
      simp only [Query.flagOps, Outcome.effective, reduceIte]
      rcases hFound : db.accounts.find? (Query.byPassword accountName password) with _ | d
      · simp [hFound] at hResult
      · rcases hOn : d.onOff with _ | _
        · simp [hOn]
        · simp [hFound, hOn] at hResult
    · simp at hResult
  · intro hMatch
    rcases outcome with _ | effect
    · simp only [reduceIte, AccountsMove.login_eq]
      rcases hFound : db.accounts.find? (Query.byPassword accountName password) with _ | d
      · obtain ⟨d, hd, hPassword⟩ := List.any_eq_true.mp hMatch
        rw [none_of_find hFound d hd] at hPassword
        cases hPassword
      · rcases hOn : d.onOff with _ | _
        · simp [hOn]
        · simp [hOn]
    · simp

end Thread

-- ---------------------------------------------------------------------------
-- Answers
-- ---------------------------------------------------------------------------

/-- The code a login is answered with. -/
def loginCode (result : Int) : Nat :=
  if result = 1 then code.login.LOGIN_LOGIN_RESULT_SUCCESS
  else if result = 0 then code.login.LOGIN_LOGIN_ERROR_ACCOUNT_PASSWORD_MISMATCH
  else if result = 2 then code.login.LOGIN_LOGIN_ERROR_ACCOUNT_ALREADY_ON
  else code.login.LOGIN_ERROR_FROM_DB

/-- It is the code of the handler, for what `mDB` has returned. -/
theorem responseCode_loginAccount {σ : Type} {d : Drivers σ} {loginReqMsg : LoginRequestMessage}
    {s s' : σ} {res : LoginResponseMessage}
    (h : (loginAccount d loginReqMsg).exec s = (.ok res, s')) :
    ∃ result s'', (d.matchAccountAndUpdateLoginState loginReqMsg.account
        loginReqMsg.password).exec s = (.ok result, s'') ∧ res.responseCode = loginCode result := by
  rcases hMatch : (d.matchAccountAndUpdateLoginState loginReqMsg.account
      loginReqMsg.password).exec s with ⟨fault | result, s''⟩
  · rw [loginAccount, Job.exec_bind_error hMatch] at h
    cases h
  refine ⟨result, s'', rfl, ?_⟩
  rw [loginAccount, Job.exec_bind_ok hMatch] at h
  dsimp only at h
  split at h
  · rename_i hOne
    rcases hRead : (d.getAllCharacterBaseInfoFill2Message loginReqMsg.account).exec s'' with
      ⟨fault | characters, s₃⟩
    · rw [Job.exec_bind_error hRead] at h
      cases h
    · rw [Job.exec_bind_ok hRead] at h
      cases h
      rw [hOne]
      rfl
  · rename_i hOther
    cases h
    rw [loginCode, if_neg hOther]

theorem loginCode_eq_success {result : Int}
    (h : loginCode result = code.login.LOGIN_LOGIN_RESULT_SUCCESS) : result = 1 := by
  unfold loginCode at h
  split at h
  · assumption
  · split at h
    · cases h
    · split at h
      · cases h
      · cases h

-- ---------------------------------------------------------------------------
-- Runs
-- ---------------------------------------------------------------------------

namespace Readers

/-- Thread `i` has answered a login of the account with the code. -/
def Answered (s : Readers) (i : Nat) (accountName : Bytes) (responseCode : Nat) : Prop :=
  ∃ password matched result, loginCode result = responseCode ∧
    s.threads[i]? = some
      ⟨.matchAccountAndUpdateLoginState accountName password, .returned result, matched⟩

/-- Thread `i` has the last upload of a character of the account. -/
def LastUpload (s : Readers) (i : Nat) (accountName : Bytes) : Prop :=
  ∃ t characterInfo, s.threads[i]? = some t ∧ t.query = .updateCharacter characterInfo true ∧
    characterInfo.account = accountName

/-- The property. In the order of the history, two logins that were answered with success have
a last upload between them; a login whose password matches is not answered otherwise than
said. -/
structure SingleSession (s : Readers) : Prop where
  once : (s.history.map Prod.fst).Nodup
  between : ∀ (accountName : Bytes) (i j : Nat), i ≠ j →
    s.Answered i accountName code.login.LOGIN_LOGIN_RESULT_SUCCESS →
    s.Answered j accountName code.login.LOGIN_LOGIN_RESULT_SUCCESS →
    ∃ k, s.LastUpload k accountName ∧
      ([(i, .take accountName false), (k, .drop accountName), (j, .take accountName false)].Sublist
          s.history ∨
        [(j, .take accountName false), (k, .drop accountName), (i, .take accountName false)].Sublist
          s.history)
  otherwise : ∀ (i : Nat) (accountName password : Bytes) (result : Int),
    s.threads[i]? = some
      ⟨.matchAccountAndUpdateLoginState accountName password, .returned result, true⟩ →
    loginCode result = code.login.LOGIN_LOGIN_RESULT_SUCCESS ∨
      loginCode result = code.login.LOGIN_LOGIN_ERROR_ACCOUNT_ALREADY_ON ∨
      loginCode result = code.login.LOGIN_ERROR_FROM_DB

/-- What holds of a login in the course of its call. -/
structure Login (s : Readers) (i : Nat) (t : Thread) (accountName : Bytes) : Prop where
  taken : t.stage = .returned 1 → (i, .take accountName false) ∈ s.history
  matched : t.matched = true →
    ∃ result, t.stage = .returned result ∧ (result = 1 ∨ result = 2 ∨ result = -1)
  stage : t.stage = .begin ∨ ∃ result, t.stage = .returned result

/-- What every run keeps, from the accounts of the beginning on. -/
structure Tracked (accounts : List AccountDocument) (s : Readers) : Prop where
  unique : Unique accountIndexes s.db.accounts
  held : onOff s.db.accounts =
    final TestAndSet.step (onOff accounts) (s.history.map Prod.snd)
  reported : Each TestAndSet.step TestAndSet.Reported (onOff accounts) (s.history.map Prod.snd)
  once : (s.history.map Prod.fst).Nodup
  performed : ∀ i op, (i, op) ∈ s.history → ∃ t, s.threads[i]? = some t ∧ t.Performed op
  logins : ∀ (i : Nat) (t : Thread) (accountName password : Bytes), s.threads[i]? = some t →
    t.query = .matchAccountAndUpdateLoginState accountName password → s.Login i t accountName

variable {s : Readers} {accounts : List AccountDocument}

theorem Tracked.request (h : Tracked accounts s) (q : Query) :
    Tracked accounts (s.step (.request q)) where
  unique := h.unique
  held := h.held
  reported := h.reported
  once := h.once
  performed i op hOp := by
    obtain ⟨t, ht, hPerformed⟩ := h.performed i op hOp
    exact ⟨t, List.getElem?_append_left (List.getElem?_eq_some_iff.mp ht).1 ▸ ht, hPerformed⟩
  logins i t accountName password ht hQuery := by
    rcases getElem_append ht with ⟨-, rfl⟩ | hOld
    · exact ⟨fun hStage => (by cases hStage), fun hMatched => (by cases hMatched), Or.inl rfl⟩
    · have hLogin := h.logins i t accountName password hOld hQuery
      exact ⟨hLogin.taken, hLogin.matched, hLogin.stage⟩

theorem Tracked.step_thread (h : Tracked accounts s) {i : Nat} {t : Thread}
    (ht : s.threads[i]? = some t) (outcome : Outcome) (now : Nat) :
    Tracked accounts (s.step (.step i outcome now)) := by
  have hMove := AccountsMove.of_step t.query outcome now s.db t.stage
  obtain ⟨hHeld, hReported⟩ := hMove.flags h.unique
  have hOps : ((t.query.flagOps outcome s.db t.stage).map fun op => (i, op)).map Prod.snd =
      t.query.flagOps outcome s.db t.stage := by
    rw [List.map_map]
    exact List.map_id _
  have hMoved : (s.threads.set i (t.step outcome now s.db))[i]? =
      some (t.step outcome now s.db) :=
    List.getElem?_set_self (List.getElem?_eq_some_iff.mp ht).1
  rw [step_some ht]
  refine ⟨hMove.unique h.unique, ?_, ?_, ?_, ?_, ?_⟩
  · rw [List.map_append, hOps, final_append, ← h.held]
    exact hHeld
  · rw [List.map_append, hOps, each_append, ← h.held]
    exact ⟨h.reported, hReported⟩
  · -- an operation of thread `i` is its first one
    rcases hFlag : t.query.flagOps outcome s.db t.stage with _ | ⟨op, ops⟩
    · rw [List.map_nil, List.append_nil]
      exact h.once
    · obtain ⟨-, hOne, hNotReturned⟩ := Thread.performed_of_mem now
        (show op ∈ t.query.flagOps outcome s.db t.stage by rw [hFlag]; exact List.mem_cons_self)
      obtain rfl : ops = [] := List.cons.inj (hFlag.symm.trans hOne) |>.2
      rw [List.map_append, List.nodup_append]
      refine ⟨h.once, by simp, ?_⟩
      intro j hj k hk hEq
      obtain ⟨⟨j', op'⟩, hMem, rfl⟩ := List.mem_map.mp hj
      obtain rfl : k = i := by simpa using hk
      obtain rfl : j' = k := hEq
      obtain ⟨t', ht', hPerformed⟩ := h.performed j' op' hMem
      obtain rfl : t' = t := Option.some.inj (ht'.symm.trans ht)
      exact hNotReturned hPerformed.returned
  · intro j op hMem
    rcases List.mem_append.mp hMem with hOld | hNew
    · obtain ⟨t', ht', hPerformed⟩ := h.performed j op hOld
      by_cases hj : j = i
      · subst hj
        obtain rfl : t' = t := Option.some.inj (ht'.symm.trans ht)
        exact ⟨_, hMoved, hPerformed.step⟩
      · exact ⟨t', (List.getElem?_set_ne (Ne.symm hj)).trans ht', hPerformed⟩
    · obtain ⟨op', hOp, hEq⟩ := List.mem_map.mp hNew
      obtain ⟨rfl, rfl⟩ := Prod.mk.inj hEq
      exact ⟨_, hMoved, (Thread.performed_of_mem now hOp).1⟩
  · intro j t' accountName password ht' hQuery
    rcases getElem_set ht' with ⟨rfl, rfl⟩ | ⟨-, hOld⟩
    · have hOldQuery : t.query = .matchAccountAndUpdateLoginState accountName password := hQuery
      have hLogin := h.logins j t accountName password ht hOldQuery
      rcases hLogin.stage with hStage | ⟨result, hStage⟩
      · obtain ⟨result, hResult, hTaken, hMatched⟩ :=
          Thread.step_login outcome now s.db hOldQuery hStage
        refine ⟨?_, fun hMatch => ⟨result, hResult, hMatched ?_⟩, Or.inr ⟨result, hResult⟩⟩
        · intro hOne
          rw [hResult] at hOne
          exact List.mem_append_right _ (List.mem_map_of_mem (hTaken (Stage.returned.inj hOne)))
        · rcases (Bool.or_eq_true _ _).mp hMatch with hOld | hNew
          · obtain ⟨result', hStage', -⟩ := hLogin.matched hOld
            rw [hStage] at hStage'
            cases hStage'
          · exact hNew
      · rw [(Thread.step_returned hStage).1]
        exact ⟨fun hOne => List.mem_append_left _ (hLogin.taken hOne), hLogin.matched,
          hLogin.stage⟩
    · have hLogin := h.logins j t' accountName password hOld hQuery
      exact ⟨fun hStage => List.mem_append_left _ (hLogin.taken hStage), hLogin.matched,
        hLogin.stage⟩

theorem Tracked.step (h : Tracked accounts s) (e : ReaderEvent) : Tracked accounts (s.step e) := by
  rcases e with q | ⟨i, outcome, now⟩
  · exact h.request q
  · rcases ht : s.threads[i]? with _ | t
    · rw [step_none ht]
      exact h
    · exact h.step_thread ht outcome now

theorem split_pair {α : Type} {x y : α} {l : List α} (hx : x ∈ l) (hy : y ∈ l) (hNe : x ≠ y) :
    (∃ before mid after, l = before ++ x :: (mid ++ y :: after)) ∨
      ∃ before mid after, l = before ++ y :: (mid ++ x :: after) := by
  obtain ⟨before, after, rfl⟩ := List.append_of_mem hx
  rcases List.mem_append.mp hy with hBefore | hAfter
  · obtain ⟨first, mid, rfl⟩ := List.append_of_mem hBefore
    exact Or.inr ⟨first, mid, after, by simp⟩
  · rcases List.mem_cons.mp hAfter with rfl | hAfter
    · exact absurd rfl hNe
    · obtain ⟨mid, last, rfl⟩ := List.append_of_mem hAfter
      exact Or.inl ⟨before, mid, last, rfl⟩

/-- Two takes of a clear flag in the history have a drop between them. -/
theorem Tracked.dropped (h : Tracked accounts s) {accountName : Bytes} {i j : Nat}
    {before mid after : List (Nat × TestAndSet.Op Bytes)}
    (hHistory : s.history =
      before ++ (i, .take accountName false) :: (mid ++ (j, .take accountName false) :: after)) :
    ∃ k, s.LastUpload k accountName ∧
      [(i, .take accountName false), (k, .drop accountName), (j, .take accountName false)].Sublist
        s.history := by
  have hReported := h.reported
  rw [hHistory, List.map_append, List.map_cons, List.map_append, List.map_cons] at hReported
  obtain ⟨⟨k, op⟩, hMem, rfl⟩ := List.mem_map.mp (TestAndSet.dropped_between hReported)
  have hPerformed := h.performed k (.drop accountName) (by rw [hHistory]; simp [hMem])
  obtain ⟨t, ht, -, characterInfo, hQuery, hAccount⟩ := hPerformed
  refine ⟨k, ⟨t, characterInfo, ht, hQuery, hAccount⟩, ?_⟩
  rw [hHistory]
  refine List.Sublist.trans (List.Sublist.cons_cons _ ?_) (List.sublist_append_right _ _)
  exact (List.singleton_sublist.mpr hMem).append (List.Sublist.cons_cons _ (List.nil_sublist _))

theorem Tracked.singleSession (h : Tracked accounts s) : s.SingleSession where
  once := h.once
  between accountName i j hNe hi hj := by
    have hTaken : ∀ k, s.Answered k accountName code.login.LOGIN_LOGIN_RESULT_SUCCESS →
        (k, .take accountName false) ∈ s.history := by
      intro k hk
      obtain ⟨password, matched, result, hCode, ht⟩ := hk
      refine (h.logins k _ accountName password ht rfl).taken ?_
      rw [loginCode_eq_success hCode]
    rcases split_pair (hTaken i hi) (hTaken j hj) (fun hEq => hNe (Prod.mk.inj hEq).1) with
      ⟨before, mid, after, hHistory⟩ | ⟨before, mid, after, hHistory⟩
    · obtain ⟨k, hUpload, hOrder⟩ := h.dropped hHistory
      exact ⟨k, hUpload, Or.inl hOrder⟩
    · obtain ⟨k, hUpload, hOrder⟩ := h.dropped hHistory
      exact ⟨k, hUpload, Or.inr hOrder⟩
  otherwise i accountName password result ht := by
    obtain ⟨result', hStage, hResult⟩ := (h.logins i _ accountName password ht rfl).matched rfl
    obtain rfl : result = result' := Stage.returned.inj hStage
    rcases hResult with rfl | rfl | rfl
    · exact Or.inl rfl
    · exact Or.inr (Or.inl rfl)
    · exact Or.inr (Or.inr rfl)

/--
**Single session.** Whatever the readers do, from any database: between two logins of an account
that are both answered with success, in the order in which they looked at the account, a last
upload of the account has cleared its flag; and a login whose account and password are
there is answered with success, as already on, or with an error of the database.
-/
theorem single_session {db : Database} (hUnique : Unique accountIndexes db.accounts)
    (es : List ReaderEvent) : Always step SingleSession (start db) es := by
  have hStart : Tracked db.accounts (start db) :=
    ⟨hUnique, rfl, trivial, List.nodup_nil, fun _ _ h => absurd h List.not_mem_nil,
      fun _ _ _ _ h => by cases h⟩
  have hTracked : Always step (Tracked db.accounts) (start db) es :=
    always_of_step (fun s e h => h.step e) hStart
  exact hTracked.imp fun s h => h.singleSession

/-- An account is registered and logs in, a second login comes too early, and a third one after the
last upload of a character. -/
theorem single_session_upload :
    let accountName := literal "a"
    let login : ReaderEvent := .request (.matchAccountAndUpdateLoginState accountName [])
    let upload : CharacterInfo := ⟨accountName, accountName, 1, true, 0, 0, 0, 0, 0, 0, 0, 0, 0, 0,
      0, 0, 0, 0⟩
    let es := [.request (.addNewAccount accountName [] []), .step 0 .done 0, login, login,
      .step 1 .done 1, .step 2 .done 1, .request (.updateCharacter upload true), .step 3 .done 2,
      .step 3 .done 2, login, .step 4 .done 3]
    Always step SingleSession (start Database.empty) es ∧
      (final step (start Database.empty) es).history =
        [(1, .take accountName false), (2, .take accountName true), (3, .drop accountName),
          (4, .take accountName false)] := by
  refine ⟨single_session unique_nil _, by decide⟩

end Readers

end WarringServer.DBServer
