import OpenHarmonyMac.Appspawn.Dispatch

/-!
# The lock status of a user

A message carries the text `<user id>:<status>`. `ProcessAppSpawnLockStatusMsg` takes it apart with
`strtok_r`, reads the id with `atoi` and compares the status with `strcmp`.

* `AsksFor` — the texts as they are documented, and the parameter each asks for
* `LetPass` — the other texts that are taken all the same
* `lock_status_iff` — the text is taken as documented just in case it is none of the others
-/

namespace Appspawn

open Infra

/-- `startup.appspawn.lockstatus_%d` -/
def lockStatusName (userId : Nat) : List Char :=
  "startup.appspawn.lockstatus_".toList ++ formatNat userId

/-- The number that a text of digits spells. -/
def decimal (digits : List Char) : Nat := Nat.ofDigitChars 10 digits 0

/-- A decimal user id of the range, a colon, and `0` for unlock or `1` for lock. -/
structure Documented (payload digits : List Char) (status : Char) : Prop where
  eq : payload = digits ++ [':', status]
  ne_nil : digits ≠ []
  isDigit : ∀ c ∈ digits, c.isDigit = true
  inRange : USER_ID_MIN_VALUE ≤ decimal digits ∧ decimal digits ≤ USER_ID_MAX_VALUE
  isStatus : status = '0' ∨ status = '1'

/-- The text asks for the parameter, name and value. -/
def AsksFor (payload : List Char) (param : List Char × List Char) : Prop :=
  ∃ digits status, Documented payload digits status ∧
    param = (lockStatusName (decimal digits), [status])

/-- What the calls take a text for. -/
structure Taken (payload seps userIdStr : List Char) (status : Char) : Prop where
  tokenized : Tokenized ':' payload seps userIdStr [status]
  inRange : USER_ID_MIN_VALUE ≤ atoi userIdStr ∧ atoi userIdStr ≤ USER_ID_MAX_VALUE
  isStatus : status = '0' ∨ status = '1'

/-- A text that the calls let pass: colons in front of the id, an id with other characters than
digits, or one that is out of the range and overflows into it. -/
def LetPass (payload : List Char) : Prop :=
  ∃ seps userIdStr status, Taken payload seps userIdStr status ∧
    (seps ≠ [] ∨ (∃ c ∈ userIdStr, c.isDigit = false) ∨ USER_ID_MAX_VALUE < decimal userIdStr)

/-- What `ProcessAppSpawnLockStatusMsg` is for: it sets the parameter that the text asks for, and
does nothing when the text asks for none. -/
structure ReadAsDocumented (env : DispatchEnv) (payload : List Char) : Prop where
  sets : ∀ s message param, message.msg.lockstatus = some payload → AsksFor payload param →
    processAppSpawnLockStatusMsg env s message = { s with parameters := param :: s.parameters }
  keeps : ∀ s message, message.msg.lockstatus = some payload → (∀ param, ¬ AsksFor payload param) →
    processAppSpawnLockStatusMsg env s message = s

/-! ## What is taken -/

variable {payload : List Char} {param : List Char × List Char}

/-- `%d` of an id in the range. -/
theorem formatInt_of_inRange {userId : Int} (h : USER_ID_MIN_VALUE ≤ userId) :
    formatInt userId = formatNat userId.toNat := by
  have hpos : 0 ≤ userId := Int.le_trans (by decide) h
  have habs : userId.natAbs = userId.toNat := by omega
  rw [formatInt, if_neg (by omega), habs]

/-- **The texts that the function takes.** -/
theorem lockStatusParam_eq_some_iff : lockStatusParam payload = some param ↔
    ∃ seps userIdStr status, Taken payload seps userIdStr status ∧
      param = (lockStatusName (atoi userIdStr).toNat, [status]) := by
  constructor
  · intro h
    unfold lockStatusParam at h
    split at h
    · next userIdStr userLockStatus htok =>
      obtain ⟨seps, htok⟩ := strtok_eq_some_iff.mp htok
      dsimp only at h
      split_ifs at h with hrange hstatus
      rw [not_or, not_lt, not_lt] at hrange
      have hone : ∃ status, userLockStatus = [status] ∧ (status = '0' ∨ status = '1') := by
        by_cases h0 : userLockStatus = ['0']
        · exact ⟨'0', h0, .inl rfl⟩
        · exact ⟨'1', by_contra fun h1 => hstatus ⟨h0, h1⟩, .inr rfl⟩
      obtain ⟨status, rfl, hs⟩ := hone
      refine ⟨seps, userIdStr, status, ⟨htok, hrange, hs⟩, ?_⟩
      rw [← Option.some.inj h, formatInt_of_inRange hrange.1]
      rfl
    · cases h
  · rintro ⟨seps, userIdStr, status, ⟨htok, hrange, hs⟩, rfl⟩
    have hstatus : ¬ ([status] ≠ ['0'] ∧ [status] ≠ ['1']) := by
      rcases hs with rfl | rfl <;> simp
    rw [lockStatusParam, strtok_of_tokenized htok]
    dsimp only
    rw [if_neg (by rw [not_or, not_lt, not_lt]; exact hrange), if_neg hstatus,
      formatInt_of_inRange hrange.1]
    rfl

/-- A text as documented is taken for what it asks for. -/
theorem Documented.taken {digits : List Char} {status : Char}
    (h : Documented payload digits status) :
    Taken payload [] digits status ∧ atoi digits = decimal digits := by
  have hmax : (decimal digits : Int) ≤ 10736 := h.inRange.2
  have hatoi : atoi digits = decimal digits :=
    atoi_of_digits h.ne_nil h.isDigit (by unfold decimal at hmax; omega)
  have hcolon : ∀ c ∈ digits, c ≠ ':' := by
    rintro c hc rfl
    exact absurd (h.isDigit _ hc) (by decide)
  exact ⟨⟨⟨h.eq, by simp, hcolon, h.ne_nil⟩, by rw [hatoi]; exact h.inRange, h.isStatus⟩, hatoi⟩

theorem AsksFor.lockStatusParam (h : AsksFor payload param) :
    lockStatusParam payload = some param := by
  obtain ⟨digits, status, hdoc, rfl⟩ := h
  obtain ⟨htaken, hatoi⟩ := hdoc.taken
  refine lockStatusParam_eq_some_iff.mpr ⟨[], digits, status, htaken, ?_⟩
  rw [hatoi, Int.toNat_natCast]

/-- A text that is taken, and not one that is let pass, is as documented. -/
theorem Taken.documented {seps userIdStr : List Char} {status : Char}
    (h : Taken payload seps userIdStr status) (hn : ¬ LetPass payload) :
    Documented payload userIdStr status ∧ atoi userIdStr = decimal userIdStr := by
  have hstrict : ¬ (seps ≠ [] ∨ (∃ c ∈ userIdStr, c.isDigit = false) ∨
      USER_ID_MAX_VALUE < decimal userIdStr) := fun hu => hn ⟨seps, userIdStr, status, h, hu⟩
  rw [not_or, not_or, not_not] at hstrict
  obtain ⟨rfl, hdigits, hmax⟩ := hstrict
  have hdigits : ∀ c ∈ userIdStr, c.isDigit = true := by
    intro c hc
    by_contra hd
    exact hdigits ⟨c, hc, Bool.not_eq_true _ ▸ hd⟩
  have hle : (decimal userIdStr : Int) ≤ 10736 := not_lt.mp hmax
  have hatoi : atoi userIdStr = decimal userIdStr :=
    atoi_of_digits h.tokenized.ne_nil hdigits (by unfold decimal at hle; omega)
  exact ⟨⟨h.tokenized.eq, h.tokenized.ne_nil, hdigits, by rw [← hatoi]; exact h.inRange,
    h.isStatus⟩, hatoi⟩

/-- A text that is let pass asks for nothing. -/
theorem LetPass.not_asksFor (h : LetPass payload) : ¬ AsksFor payload param := by
  rintro ⟨digits, status, hdoc, -⟩
  obtain ⟨seps, userIdStr, status', htaken, hu⟩ := h
  have heq := htaken.tokenized.eq
  rw [hdoc.eq, show userIdStr ++ ':' :: [status'] = userIdStr ++ [':', status'] from rfl,
    ← List.append_assoc] at heq
  have hdigits : digits = seps ++ userIdStr := List.append_inj_left' heq rfl
  -- Digits are no colons, so there is nothing in front of the id.
  have hseps : seps = [] := by
    cases seps with
    | nil => rfl
    | cons c cs =>
      have hc : c = ':' := htaken.tokenized.seps_eq c (by simp)
      have hd := hdoc.isDigit c (by rw [hdigits]; simp)
      rw [hc] at hd
      exact absurd hd (by decide)
  subst hseps
  rw [List.nil_append] at hdigits
  subst hdigits
  rcases hu with hne | ⟨c, hc, hd⟩ | hmax
  · exact hne rfl
  · rw [hdoc.isDigit c hc] at hd
    cases hd
  · exact absurd hdoc.inRange.2 (not_le.mpr hmax)

theorem processAppSpawnLockStatusMsg_eq {env : DispatchEnv} (henv : env.setParameter = 0)
    (s : Server) {message : AppSpawnMsgNode} (hm : message.msg.lockstatus = some payload) :
    processAppSpawnLockStatusMsg env s message =
      match lockStatusParam payload with
      | none => s
      | some param => { s with parameters := param :: s.parameters } := by
  rw [processAppSpawnLockStatusMsg, hm, Option.bind_some]
  cases lockStatusParam payload with
  | none => rfl
  | some param => simp [henv]

/-- A server that gets such a text sets a parameter, where it should do nothing. -/
theorem LetPass.not_readAsDocumented {env : DispatchEnv} (henv : env.setParameter = 0)
    (h : LetPass payload) : ¬ ReadAsDocumented env payload := by
  intro hread
  obtain ⟨seps, userIdStr, status, htaken, -⟩ := id h
  have hparam := lockStatusParam_eq_some_iff.mpr ⟨seps, userIdStr, status, htaken, rfl⟩
  let message : AppSpawnMsgNode := { id := 0, msg := { sampleMsg with lockstatus := some payload } }
  have hkeeps := hread.keeps sampleLaunch message rfl fun _ => h.not_asksFor
  rw [processAppSpawnLockStatusMsg_eq henv sampleLaunch rfl, hparam] at hkeeps
  exact List.cons_ne_self _ _ (congrArg Server.parameters hkeeps)

/-- **A text is read as documented just in case it is none of those that are let pass.** -/
theorem lock_status_iff {env : DispatchEnv} (henv : env.setParameter = 0) (payload : List Char) :
    ReadAsDocumented env payload ↔ ¬ LetPass payload := by
  constructor
  · exact fun h hpass => hpass.not_readAsDocumented henv h
  · intro hn
    constructor
    · intro s message param hm hasks
      rw [processAppSpawnLockStatusMsg_eq henv s hm, hasks.lockStatusParam]
    · intro s message hm hnone
      rw [processAppSpawnLockStatusMsg_eq henv s hm]
      cases hparam : lockStatusParam payload with
      | none => rfl
      | some param =>
        obtain ⟨seps, userIdStr, status, htaken, rfl⟩ := lockStatusParam_eq_some_iff.mp hparam
        obtain ⟨hdoc, hatoi⟩ := htaken.documented hn
        refine absurd ?_ (hnone (lockStatusName (decimal userIdStr), [status]))
        exact ⟨userIdStr, status, hdoc, rfl⟩

/-- The text of the comment is read as it should be. -/
theorem lock_status_iff_run : ReadAsDocumented {} "100:0".toList := by
  refine (lock_status_iff rfl _).mpr fun hpass => ?_
  have hdoc : Documented "100:0".toList "100".toList '0' :=
    ⟨rfl, by simp, by simp, by decide, .inl rfl⟩
  exact hpass.not_asksFor ⟨_, _, hdoc, rfl⟩

/-- **A number that overflows into the range is taken for a user.** -/
theorem overflowing_user_taken : ∃ payload param, lockStatusParam payload = some param ∧
    ¬ AsksFor payload param ∧ ¬ ReadAsDocumented {} payload := by
  have htaken : Taken "4294967396:1".toList [] "4294967396".toList '1' :=
    ⟨⟨rfl, by simp, by simp, by simp⟩, by decide, .inr rfl⟩
  have hpass : LetPass "4294967396:1".toList := ⟨_, _, _, htaken, .inr (.inr (by decide))⟩
  exact ⟨_, _, lockStatusParam_eq_some_iff.mpr ⟨_, _, _, htaken, rfl⟩, hpass.not_asksFor,
    hpass.not_readAsDocumented rfl⟩

end Appspawn
