import OpenHarmonyMac.Appspawn.ColdStart

/-!
# The child side of a spawn

A child runs the hooks of a few stages, tells its parent through the pipe how they went, and
becomes the application. A cold started child does the same in two processes: it hands its
context over before the hooks (`AppSpawnColdStartApp`), and `AppSpawnColdRun` takes it from
there.

A run of the child is the list of what it does, in order.

* `reports_iff` — the child reports or is replaced, unless a cold start fails at `execv`
* `starts_agree_iff` — the two ways to start agree, unless the pre-reply hooks fail
-/

namespace Appspawn

open Infra

/-- The stages of hooks that run in the child. -/
inductive ChildStage
  | preColdboot
  | execute
  | preReply
  | postReply
  | preRun
deriving DecidableEq, Repr

inductive ChildAct
  /-- `AppSpawnHookExecute` -/
  | hooks (stage : ChildStage)
  /-- `notifyResToParent` -/
  | notify (result : Int)
  /-- `execv` replaces the process. -/
  | exec (argv : List (List Char))
  | runChildProcessor
deriving DecidableEq, Repr

/-- What the environment answers in the child. -/
structure ChildEnv where
  /-- `AppSpawnExecuteClearEnvHook` -/
  clearEnv : Int := 0
  /-- `AppSpawnExecuteSpawningHook` -/
  spawning : Int := 0
  /-- `AppSpawnExecutePreReplyHook` -/
  preReply : Int := 0
  /-- `content->coldStartApp != NULL` -/
  coldStartApp : Bool := true
  /-- The call of `GetMapMem` in `WriteMsgToChild`. -/
  map : MapEnv := {}
  /-- `execv` succeeds. -/
  execv : Bool := true
  /-- `content->runChildProcessor`, with what it returns. -/
  runChildProcessor : Option Int := some 0
deriving DecidableEq, Repr

/-- The return value of the hooks of a stage, where the child looks at it. -/
def ChildEnv.ret (env : ChildEnv) : ChildStage → Int
  | .preColdboot => env.clearEnv
  | .execute => env.spawning
  | .preReply => env.preReply
  | _ => 0

/-! ## The two ways to start -/

/-- `NotifyResToParent` and `AppSpawnEnvClear` -/
def notifyAndClear (ret : Int) : List ChildAct := [.notify ret, .hooks .preRun]

/-- The child processor, and `AppSpawnEnvClear` when the start has failed with it. `ret` is the
result without a processor. -/
def runProcessor (env : ChildEnv) (ret : Int) : List ChildAct :=
  let r : List ChildAct × Int :=
    match env.runChildProcessor with
    | none => ([], ret)
    | some ret => ([.runChildProcessor], ret)
  r.1 ++ if r.2 ≠ 0 then [.hooks .preRun] else []

/-- `AppSpawnChild` from the spawning hooks on. -/
def startNormal (env : ChildEnv) : List ChildAct :=
  .hooks .execute ::
    if env.spawning ≠ 0 then notifyAndClear env.spawning
    else .hooks .preReply ::
      if env.preReply ≠ 0 then notifyAndClear env.preReply
      else .notify 0 :: .hooks .postReply :: runProcessor env 0

variable (k : Codes) (lib : MsgLib)

/-- `AppSpawnChild` -/
def appSpawnChild (env : ChildEnv) (files : Files) (content : AppSpawnContent) (path : List Char)
    (property : ColdCtx) : List ChildAct :=
  .hooks .preColdboot ::
    if env.clearEnv ≠ 0 then notifyAndClear env.clearEnv
    else if property.client.flags &&& k.appColdStart ≠ 0 ∧ env.coldStartApp = true then
      let r := appSpawnColdStartApp k lib env.map files content path property
      match r.argv, env.execv with
      | some argv, true => [.exec argv]
      | _, _ => if r.ret = 0 then [] else startNormal env
    else startNormal env

/-- `AppSpawnColdRun` in a process of the mode `mode`. -/
def appSpawnColdRun (check : List UInt8 → Int) (env : ChildEnv) (files : Files) (mode : Mode)
    (argv : List (List Char)) : List ChildAct :=
  if argv.length < ARG_NULL then []
  else
    let r := getAppSpawningCtxFromArg k lib check env.map files mode argv
    match r.property with
    | none => r.notified.map .notify
    | some _ => .hooks .execute ::
      if env.spawning = 0 then
        -- the result of these hooks decides about nothing but what the parent is told
        .hooks .preReply :: .notify env.preReply :: .hooks .postReply ::
          runProcessor env k.systemError
      else notifyAndClear env.spawning

/-! ## What the parent is told -/

def ChildAct.notified? : ChildAct → Option Int
  | .notify result => some result
  | _ => none

def ChildAct.isExec : ChildAct → Bool
  | .exec _ => true
  | _ => false

/-- The results that the parent is notified of. -/
def notified (acts : List ChildAct) : List Int := acts.filterMap ChildAct.notified?

/-- What happens before the parent is notified. -/
def beforeNotify (acts : List ChildAct) : List ChildAct := acts.takeWhile (·.notified?.isNone)

@[simp] theorem notified_nil : notified [] = [] := rfl

@[simp] theorem notified_hooks (stage : ChildStage) (acts : List ChildAct) :
    notified (.hooks stage :: acts) = notified acts := rfl

@[simp] theorem notified_notify (result : Int) (acts : List ChildAct) :
    notified (.notify result :: acts) = result :: notified acts := rfl

@[simp] theorem notified_exec (argv : List (List Char)) (acts : List ChildAct) :
    notified (.exec argv :: acts) = notified acts := rfl

@[simp] theorem beforeNotify_hooks (stage : ChildStage) (acts : List ChildAct) :
    beforeNotify (.hooks stage :: acts) = .hooks stage :: beforeNotify acts := rfl

@[simp] theorem beforeNotify_notify (result : Int) (acts : List ChildAct) :
    beforeNotify (.notify result :: acts) = [] := rfl

theorem notified_append (acts acts' : List ChildAct) :
    notified (acts ++ acts') = notified acts ++ notified acts' := List.filterMap_append

/-- The processor notifies nobody and does not replace the process. -/
@[simp] theorem notified_runProcessor (env : ChildEnv) (ret : Int) :
    notified (runProcessor env ret) = [] := by
  cases hp : env.runChildProcessor <;> simp only [runProcessor, hp] <;> split <;> rfl

theorem not_isExec_runProcessor (env : ChildEnv) (ret : Int) :
    ∀ a ∈ runProcessor env ret, a.isExec = false := by
  intro a ha
  cases hp : env.runChildProcessor <;> simp only [runProcessor, hp] at ha <;> split at ha <;>
    simp at ha
  all_goals
    rcases ha with rfl | rfl <;> rfl

/-! ## The child reports -/

variable {k lib} {env : ChildEnv} {files : Files} {content : AppSpawnContent} {path : List Char}
  {property : ColdCtx}

/-- The child is replaced by the last thing it does, or it notifies its parent once, and of 0 only
behind the hooks of three stages that have all returned 0. -/
structure Reports (env : ChildEnv) (acts : List ChildAct) : Prop where
  once : (∃ pre argv, acts = pre ++ [.exec argv] ∧ notified acts = []) ∨
    ((notified acts).length = 1 ∧ ∀ a ∈ acts, a.isExec = false)
  honest : notified acts = [0] → ∀ stage ∈ [ChildStage.preColdboot, .execute, .preReply],
    .hooks stage ∈ beforeNotify acts ∧ env.ret stage = 0

theorem reports_failure (acts : List ChildAct) {result : Int} (hr : result ≠ 0)
    (hn : notified acts = []) (hx : ∀ a ∈ acts, a.isExec = false) :
    Reports env (acts ++ notifyAndClear result) := by
  have he : notified (acts ++ notifyAndClear result) = [result] := by
    rw [notified_append, hn]
    rfl
  constructor
  · refine Or.inr ⟨by rw [he]; rfl, fun a ha => ?_⟩
    rcases List.mem_append.mp ha with ha | ha
    · exact hx a ha
    · simp only [notifyAndClear, List.mem_cons, List.not_mem_nil, or_false] at ha
      rcases ha with rfl | rfl <;> rfl
  · intro h
    rw [he] at h
    exact absurd (List.cons.inj h).1 hr

/-- **The normal start reports.** -/
theorem reports_startNormal (hc : env.clearEnv = 0) :
    Reports env (.hooks .preColdboot :: startNormal env) := by
  unfold startNormal
  split
  · next hs =>
    refine reports_failure [.hooks .preColdboot, .hooks .execute] hs rfl (fun a ha => ?_)
    simp only [List.mem_cons, List.not_mem_nil, or_false] at ha
    rcases ha with rfl | rfl <;> rfl
  · next hs =>
    split
    · next hp =>
      refine reports_failure [.hooks .preColdboot, .hooks .execute, .hooks .preReply] hp
        rfl (fun a ha => ?_)
      simp only [List.mem_cons, List.not_mem_nil, or_false] at ha
      rcases ha with rfl | rfl | rfl <;> rfl
    · next hp =>
      constructor
      · refine Or.inr ⟨by simp, fun a ha => ?_⟩
        simp only [List.mem_cons] at ha
        rcases ha with rfl | rfl | rfl | rfl | rfl | ha
        · rfl
        · rfl
        · rfl
        · rfl
        · rfl
        · exact not_isExec_runProcessor env 0 a ha
      · intro _ stage hst
        simp only [List.mem_cons, List.not_mem_nil, or_false] at hst
        rcases hst with rfl | rfl | rfl
        · exact ⟨by simp, hc⟩
        · exact ⟨by simp, not_not.mp hs⟩
        · exact ⟨by simp, not_not.mp hp⟩

/-! ## The cold start -/

theorem formatArg_eq {text : List Char} (h : text.length ≤ 29) :
    formatArg text = some (' ' :: (text ++ [' '])) :=
  sprintfS_eq_some (by simp; omega)

theorem length_formatUInt32_le (n : UInt32) : (formatNat n.toNat).length ≤ 29 :=
  Nat.le_trans (length_formatNat_le (k := 10) (by decide)
    (Nat.lt_trans n.toNat_lt (by decide))) (by decide)

theorem length_formatInt32_le (i : Int32) : (formatInt i.toInt).length ≤ 29 := by
  have hlo := i.le_toInt
  have hhi := i.toInt_lt
  have hdigits : (formatNat i.toInt.natAbs).length ≤ 10 :=
    length_formatNat_le (by decide) (by omega)
  unfold formatInt
  split
  · rw [List.length_cons]
    omega
  · omega

theorem writeMsgToChild_size {map : MapEnv} {files' : Files} {isNweb : Bool} {size : Nat}
    (h : writeMsgToChild k lib map files property isNweb = (files', .ok size)) : size < 2 ^ 32 := by
  simp only [writeMsgToChild] at h
  split at h
  · cases (Prod.mk.inj h).2
  · split at h
    · cases (Prod.mk.inj h).2
    · split at h
      · cases (Prod.mk.inj h).2
      · rw [← Except.ok.inj (Prod.mk.inj h).2, memSize]
        exact Nat.mod_lt _ (by decide)

/-- The message is in its file. -/
def HandedOver (k : Codes) (lib : MsgLib) (map : MapEnv) (files : Files) (content : AppSpawnContent)
    (property : ColdCtx) : Prop :=
  ∃ files' size, writeMsgToChild k lib map files property content.isNWebSpawnMode = (files', .ok size)

/-- Once the message is handed over, `AppSpawnColdStartApp` calls `execv` and returns 0. Else it
fails. -/
theorem appSpawnColdStartApp_cases (k : Codes) (lib : MsgLib) (map : MapEnv) (files : Files)
    (content : AppSpawnContent) (path : List Char) (property : ColdCtx) :
    (HandedOver k lib map files content property ∧
      (appSpawnColdStartApp k lib map files content path property).ret = 0 ∧
      ∃ argv, (appSpawnColdStartApp k lib map files content path property).argv = some argv) ∨
    (¬ HandedOver k lib map files content property ∧
      (appSpawnColdStartApp k lib map files content path property).ret ≠ 0 ∧
      (appSpawnColdStartApp k lib map files content path property).argv = none) := by
  cases hw : writeMsgToChild k lib map files property content.isNWebSpawnMode with
  | mk files' written =>
    cases written with
    | error e =>
      refine Or.inr ⟨?_, ?_, ?_⟩
      · rintro ⟨_, _, h⟩
        rw [hw] at h
        cases (Prod.mk.inj h).2
      · simp only [appSpawnColdStartApp, hw]
        exact k.ne_zero.1
      · simp only [appSpawnColdStartApp, hw]
    | ok size =>
      have hlt := writeMsgToChild_size hw
      have hsize : (formatNat size).length ≤ 29 :=
        Nat.le_trans (length_formatNat_le (k := 10) (by decide)
          (Nat.lt_trans hlt (by decide))) (by decide)
      refine Or.inl ⟨⟨files', size, hw⟩, ?_, ?_⟩
      · simp only [appSpawnColdStartApp, hw, formatArg_eq (length_formatInt32_le _),
          formatArg_eq (length_formatUInt32_le _), formatArg_eq hsize]
      · simp only [appSpawnColdStartApp, hw, formatArg_eq (length_formatInt32_le _),
          formatArg_eq (length_formatUInt32_le _), formatArg_eq hsize]
        exact ⟨_, rfl⟩

/-- A cold start is asked for and gets as far as `execv`, which fails. -/
structure Strands (k : Codes) (lib : MsgLib) (env : ChildEnv) (files : Files)
    (content : AppSpawnContent) (property : ColdCtx) : Prop where
  clearEnv : env.clearEnv = 0
  cold : property.client.flags &&& k.appColdStart ≠ 0
  coldStartApp : env.coldStartApp = true
  handedOver : HandedOver k lib env.map files content property
  execv : env.execv = false

/-- The child that is stranded has run the first hooks and nothing else. -/
theorem appSpawnChild_of_strands (h : Strands k lib env files content property) :
    appSpawnChild k lib env files content path property = [.hooks .preColdboot] := by
  rcases appSpawnColdStartApp_cases k lib env.map files content path property with
    ⟨-, hret, argv, hargv⟩ | ⟨hn, -, -⟩
  · unfold appSpawnChild
    rw [if_neg (not_not.mpr h.clearEnv), if_pos ⟨h.cold, h.coldStartApp⟩]
    simp only [hargv, h.execv, hret, if_true]
  · exact absurd h.handedOver hn

/-- **The child reports or is replaced, unless it is stranded.** -/
theorem reports_iff (k : Codes) (lib : MsgLib) (env : ChildEnv) (files : Files)
    (content : AppSpawnContent) (path : List Char) (property : ColdCtx) :
    Reports env (appSpawnChild k lib env files content path property) ↔
      ¬ Strands k lib env files content property := by
  constructor
  · intro h hs
    rw [appSpawnChild_of_strands hs] at h
    rcases h.once with ⟨pre, argv, he, -⟩ | ⟨hlen, -⟩
    · have hlast := congrArg List.getLast? he
      simp at hlast
    · simp at hlen
  · intro hs
    unfold appSpawnChild
    split
    · next hc =>
      exact reports_failure [.hooks .preColdboot] hc rfl (fun a ha => by
        rw [List.mem_singleton.mp ha]
        rfl)
    · next hc =>
      have hnormal := reports_startNormal (not_not.mp hc)
      split
      · next hcold =>
        rcases appSpawnColdStartApp_cases k lib env.map files content path property with
          ⟨hhand, hret, argv, hargv⟩ | ⟨-, hret, hargv⟩
        · cases hx : env.execv with
          | true =>
            simp only [hargv]
            exact ⟨Or.inl ⟨[.hooks .preColdboot], argv, rfl, rfl⟩, fun h => by simp at h⟩
          | false => exact absurd ⟨not_not.mp hc, hcold.1, hcold.2, hhand, hx⟩ hs
        · simp only [hargv, if_neg hret]
          exact hnormal
      · exact hnormal

/-- `execv` fails behind a hand-over: the child ends without a word. -/
theorem cold_start_returns_silently :
    appSpawnChild sampleCodes wireLib { execv := false } (fun _ => none)
      { mode := .appSpawn, enablePerfork := false } [] sampleColdCtx = [.hooks .preColdboot] ∧
    ¬ Reports { execv := false } (appSpawnChild sampleCodes wireLib { execv := false }
      (fun _ => none) { mode := .appSpawn, enablePerfork := false } [] sampleColdCtx) := by
  have hacts : appSpawnChild sampleCodes wireLib { execv := false } (fun _ => none)
      { mode := .appSpawn, enablePerfork := false } [] sampleColdCtx = [.hooks .preColdboot] := by
    decide +kernel
  refine ⟨hacts, fun h => ?_⟩
  rw [hacts] at h
  rcases h.once with ⟨pre, argv, he, -⟩ | ⟨hlen, -⟩
  · have hlast := congrArg List.getLast? he
    simp at hlast
  · exact absurd hlen (by decide)

/-! ## The two ways to start agree -/

/-- Two starts tell the parent the same and run the same, and the application runs just in case
the parent was told 0. -/
structure Agree (acts acts' : List ChildAct) : Prop where
  told : notified acts = notified acts'
  postReply : .hooks .postReply ∈ acts ↔ .hooks .postReply ∈ acts'
  processor : .runChildProcessor ∈ acts ↔ .runChildProcessor ∈ acts'
  runs_iff : ∀ as ∈ [acts, acts'], .runChildProcessor ∈ as ↔ notified as = [0]

theorem appSpawnChild_of_not_cold (hc : env.clearEnv = 0)
    (hflag : property.client.flags &&& k.appColdStart = 0) :
    appSpawnChild k lib env files content path property = .hooks .preColdboot :: startNormal env := by
  unfold appSpawnChild
  rw [if_neg (not_not.mpr hc), if_neg (fun h => h.1 hflag)]

theorem appSpawnColdRun_of_some {check : List UInt8 → Int} {mode : Mode} {argv : List (List Char)}
    (hargc : ARG_NULL ≤ argv.length)
    (hctx : (getAppSpawningCtxFromArg k lib check env.map files mode argv).property
      = some property) :
    appSpawnColdRun k lib check env files mode argv = .hooks .execute ::
      if env.spawning = 0 then
        .hooks .preReply :: .notify env.preReply :: .hooks .postReply ::
          runProcessor env k.systemError
      else notifyAndClear env.spawning := by
  unfold appSpawnColdRun
  rw [if_neg (Nat.not_lt.mpr hargc)]
  simp only [hctx]

theorem processor_mem_runProcessor (env : ChildEnv) (ret : Int) :
    .runChildProcessor ∈ runProcessor env ret ↔ env.runChildProcessor.isSome = true := by
  cases hp : env.runChildProcessor <;> simp only [runProcessor, hp] <;> split <;> simp

/-- **The two ways to start agree just in case the spawning hooks fail, or the pre-reply hooks
succeed and there is a child processor.** -/
theorem starts_agree_iff {check : List UInt8 → Int} {files' : Files} {mode : Mode}
    {argv : List (List Char)} {property' : ColdCtx} (hclear : env.clearEnv = 0)
    (hflag : property.client.flags &&& k.appColdStart = 0) (hargc : ARG_NULL ≤ argv.length)
    (hctx : (getAppSpawningCtxFromArg k lib check env.map files' mode argv).property
      = some property') :
    Agree (appSpawnChild k lib env files content path property)
        (appSpawnColdRun k lib check env files' mode argv) ↔
      env.spawning ≠ 0 ∨ (env.preReply = 0 ∧ env.runChildProcessor.isSome = true) := by
  rw [appSpawnChild_of_not_cold hclear hflag, appSpawnColdRun_of_some hargc hctx, startNormal]
  by_cases hs : env.spawning = 0
  · rw [if_neg (not_not.mpr hs), if_pos hs]
    by_cases hp : env.preReply = 0
    · rw [if_neg (not_not.mpr hp)]
      have hrun := fun ret => processor_mem_runProcessor env ret
      constructor
      · intro h
        have hiff := h.runs_iff _ List.mem_cons_self
        simp only [List.mem_cons, reduceCtorEq, false_or, hrun, notified_hooks, notified_notify,
          notified_runProcessor, iff_true] at hiff
        exact Or.inr ⟨hp, hiff⟩
      · rintro (hne | ⟨-, hsome⟩)
        · exact absurd hs hne
        · constructor
          · simp [hp]
          · simp
          · simp [hrun]
          · intro as has
            simp only [List.mem_cons, List.not_mem_nil, or_false] at has
            rcases has with rfl | rfl
            · simp [hrun, hsome]
            · simp [hrun, hsome, hp]
    · rw [if_pos hp]
      constructor
      · intro h
        have hpost := h.postReply.mpr (by simp)
        simp [notifyAndClear] at hpost
      · rintro (hne | ⟨he, -⟩)
        · exact absurd hs hne
        · exact absurd he hp
  · rw [if_pos hs, if_neg hs]
    refine ⟨fun _ => Or.inl hs, fun _ => ⟨rfl, ?_, ?_, ?_⟩⟩
    · simp [notifyAndClear]
    · simp [notifyAndClear]
    · intro as has
      simp only [List.mem_cons, List.not_mem_nil, or_false] at has
      rcases has with rfl | rfl
      · simp [notifyAndClear, hs]
      · simp [notifyAndClear, hs]

/-- The process that `sampleColdCtx` is handed to has these arguments and files. -/
def sampleHandedOver : ColdStarted :=
  appSpawnColdStartApp sampleCodes wireLib {} (fun _ => none)
    { mode := .appSpawn, enablePerfork := false } [] sampleColdCtx

/-- The same context without the flag. -/
def sampleWarmCtx : ColdCtx := { sampleColdCtx with client := { id := 1, flags := 0 } }

/-- What a start of it does. -/
def sampleNormalStart (env : ChildEnv) : List ChildAct :=
  appSpawnChild sampleCodes wireLib env (fun _ => none) { mode := .appSpawn, enablePerfork := false }
    [] sampleWarmCtx

/-- What the cold started process does. -/
def sampleColdStart (env : ChildEnv) : List ChildAct :=
  appSpawnColdRun sampleCodes wireLib (fun _ => 0) env sampleHandedOver.files .appColdRun
    (sampleHandedOver.argv.getD [])

/-- All hooks succeed. -/
def sampleChildEnv : ChildEnv := {}

theorem starts_agree_iff_run :
    Agree (sampleNormalStart sampleChildEnv) (sampleColdStart sampleChildEnv) ↔
      sampleChildEnv.spawning ≠ 0 ∨
        (sampleChildEnv.preReply = 0 ∧ sampleChildEnv.runChildProcessor.isSome = true) := by
  have hsome : (getAppSpawningCtxFromArg sampleCodes wireLib (fun _ => 0) sampleChildEnv.map
      sampleHandedOver.files .appColdRun (sampleHandedOver.argv.getD [])).property.isSome = true := by
    decide +kernel
  obtain ⟨property, hctx⟩ := Option.isSome_iff_exists.mp hsome
  have hargc : ARG_NULL ≤ (sampleHandedOver.argv.getD []).length := by decide +kernel
  unfold sampleNormalStart sampleColdStart
  exact starts_agree_iff rfl (by decide) hargc hctx

/-- The pre-reply hooks fail. Both ways tell the parent 5, and the application runs in the cold
started process. -/
theorem pre_reply_failure_disagrees :
    sampleNormalStart { preReply := 5 } =
      [.hooks .preColdboot, .hooks .execute, .hooks .preReply, .notify 5, .hooks .preRun] ∧
    sampleColdStart { preReply := 5 } =
      [.hooks .execute, .hooks .preReply, .notify 5, .hooks .postReply, .runChildProcessor] ∧
    ¬ Agree (sampleNormalStart { preReply := 5 }) (sampleColdStart { preReply := 5 }) := by
  have hnormal : sampleNormalStart { preReply := 5 } =
      [.hooks .preColdboot, .hooks .execute, .hooks .preReply, .notify 5, .hooks .preRun] := by
    decide +kernel
  have hcold : sampleColdStart { preReply := 5 } =
      [.hooks .execute, .hooks .preReply, .notify 5, .hooks .postReply, .runChildProcessor] := by
    decide +kernel
  refine ⟨hnormal, hcold, fun h => ?_⟩
  rw [hnormal, hcold] at h
  exact absurd (h.processor.mpr (by decide)) (by decide)

end Appspawn
