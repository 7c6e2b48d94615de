import AcojWorker.Judge.StandardVerdict

/-!
# Batch numbers as names

Scoring compares batch numbers and does nothing else with them, so renaming them apart from
each other changes no result. What does look at a number is the choice of the strategy: a
request has batches if the number of one of its cases counts as true, and zero does not.
-/

namespace AcojWorker

open Python Effect Grouping

/-! ### Scoring -/

section Scoring

variable {β γ π : Type} [DecidableEq β] [DecidableEq γ] {g : β → γ}

def BatchInfo.rename (g : β → γ) (tc : BatchInfo β) : BatchInfo γ :=
  ⟨tc.batchNo.map g, tc.batchDepends.map g, tc.batchDependencies.map g⟩

omit [DecidableEq β] [DecidableEq γ] in
theorem deps_rename (tc : BatchInfo β) : (tc.rename g).deps = tc.deps.map g := by
  simp only [BatchInfo.deps, BatchInfo.rename, List.isEmpty_map]
  split <;> rfl

theorem recordCase_rename (inj : g.Injective) {batchAc : BatchStatus β} {renamed : BatchStatus γ}
    (same : ∀ b, renamed (g b) = batchAc b) (tc : BatchInfo β) (cr : CaseResult π) (b : β) :
    recordCase renamed (tc.rename g) cr (g b) = recordCase batchAc tc cr b := by
  rcases tc with ⟨_ | bn, _, _⟩
  · exact same b
  · simp only [recordCase, BatchInfo.rename, Option.map_some, Function.update_apply, inj.eq_iff,
      same]

theorem computeBatchAcStatus_rename (inj : g.Injective) (raw : List (CaseResult π))
    (tcs : List (BatchInfo β)) (b : β) :
    computeBatchAcStatus raw (tcs.map (BatchInfo.rename g)) (g b) =
      computeBatchAcStatus raw tcs b := by
  have loop : ∀ (xs : List (BatchInfo β × CaseResult π)) (renamed : BatchStatus γ)
      (batchAc : BatchStatus β), (∀ b, renamed (g b) = batchAc b) →
      xs.foldl (fun batchAc x => recordCase batchAc (x.1.rename g) x.2) renamed (g b) =
        xs.foldl (fun batchAc x => recordCase batchAc x.1 x.2) batchAc b := by
    intro xs
    induction xs with
    | nil => exact fun _ _ same => same b
    | cons x xs ih => exact fun _ _ same => ih _ _ (recordCase_rename inj same x.1 x.2)
  rw [computeBatchAcStatus, computeBatchAcStatus, List.zip_map_left, List.foldl_map]
  exact loop _ _ _ fun _ => rfl

variable {batchAc : BatchStatus β} {renamed : BatchStatus γ}

section Marking

variable [Zero π]

omit [DecidableEq β] [DecidableEq γ] in
theorem applyBatchDependencies_rename (same : ∀ b, renamed (g b) = batchAc b)
    (raw : List (CaseResult π)) (tcs : List (BatchInfo β)) :
    applyBatchDependencies renamed raw (tcs.map (BatchInfo.rename g)) =
      applyBatchDependencies batchAc raw tcs := by
  induction raw generalizing tcs with
  | nil => cases tcs <;> rfl
  | cons cr raw ih =>
      cases tcs with
      | nil => rfl
      | cons tc tcs =>
          have marked : markDependencies renamed (tc.rename g) cr =
              markDependencies batchAc tc cr := by
            rw [markDependencies, markDependencies, deps_rename, List.foldl_map]
            simp only [same]
            rcases tc with ⟨_ | bn, _, _⟩ <;> rfl
          rw [List.map_cons, applyBatchDependencies, applyBatchDependencies, marked, ih]

end Marking

variable {num : π → Except Exc ℚ}

omit [DecidableEq β] [DecidableEq γ] in
theorem scoreBatch_rename [Zero π] (same : ∀ b, renamed (g b) = batchAc b) (bn : Option β)
    (batchCases : List (CaseResult π)) (acc : List (CaseResult π) × ℚ) :
    scoreBatch num renamed (bn.map g) batchCases acc = scoreBatch num batchAc bn batchCases acc := by
  cases bn with
  | none => rfl
  | some b => simp only [scoreBatch, Option.map_some, same]

/-- Batch scoring does not depend on how the batches are called. -/
theorem aggregateBatches_rename [Zero π] (inj : g.Injective) (raw : List (CaseResult π))
    (tcs : List (BatchInfo β)) :
    aggregateBatches num raw (tcs.map (BatchInfo.rename g)) = aggregateBatches num raw tcs := by
  have status := fun raw : List (CaseResult π) => computeBatchAcStatus_rename inj raw tcs
  simp only [aggregateBatches, applyBatchDependencies_rename (status raw)]
  generalize applyBatchDependencies (computeBatchAcStatus raw tcs) raw tcs = marked
  have keyed : ((tcs.map (BatchInfo.rename g)).zip marked).map (fun x => (x.1.batchNo, x.2)) =
      ((tcs.zip marked).map fun x => (x.1.batchNo, x.2)).map fun x => (x.1.map g, x.2) := by
    rw [List.zip_map_left, List.map_map, List.map_map]
    rfl
  have apart := Option.map_injective inj
  rw [keyed, group_order_map apart, List.foldlM_map]
  simp only [group_members_map apart, scoreBatch_rename (status marked)]

end Scoring

/-! ### Requests -/

/-- The same dictionary with other values. -/
def mapFields (g : String → Value → Value) : Value → Value
  | .dict fields => .dict (fields.map fun kv => (kv.1, g kv.1 kv.2))
  | v => v

def mapElements (g : Value → Value) : Value → Value
  | .list xs => .list (xs.map g)
  | v => v

/-- The integer a value equals. -/
def integer : Value → Option Int
  | .bool b => some (if b then 1 else 0)
  | .int z => some z
  | .float q => if q.den = 1 then some q.num else none
  | _ => none

def renameBatch (f : Int → Int) (v : Value) : Value :=
  match integer v with
  | some z => .int (f z)
  | none => v

def renameField (f : Int → Int) (name : String) (v : Value) : Value :=
  if name = "batch_no" then renameBatch f v
  else if name = "batch_depends" ∨ name = "batch_dependencies" then mapElements (renameBatch f) v
  else v

def renameCase (f : Int → Int) : Value → Value := mapFields (renameField f)

/-- The request with every batch number `z` replaced by `f z`. -/
def renameBatches (f : Int → Int) : Value → Value :=
  mapFields fun name v => if name = "test_cases" then mapElements (renameCase f) v else v

section Fields

variable {g : String → Value → Value}

theorem lookup_mapFields (fields : List (String × Value)) (name : String) :
    (fields.map fun kv => (kv.1, g kv.1 kv.2)).lookup name =
      (fields.lookup name).map (g name) := by
  induction fields with
  | nil => rfl
  | cons kv fields ih =>
      obtain ⟨key, v⟩ := kv
      by_cases same : name = key
      · subst same
        simp
      · simp [List.lookup_cons, beq_false_of_ne same, ih]

theorem item_mapFields (v : Value) (name : String) :
    (mapFields g v).item name = (v.item name).map (g name) := by
  cases v with
  | dict fields =>
      simp only [mapFields, Value.item_dict, lookup_mapFields]
      cases fields.lookup name <;> rfl
  | _ => rfl

theorem get_mapFields (v : Value) (name : String) {default : Value}
    (fixed : g name default = default) :
    (mapFields g v).get name default = (v.get name default).map (g name) := by
  cases v with
  | dict fields =>
      simp only [mapFields, Value.get_dict, lookup_mapFields]
      cases fields.lookup name <;> simp [Except.map, fixed]
  | _ => rfl

theorem elements_mapElements {g : Value → Value} (fixed : ∀ s, g (.str s) = .str s) (v : Value) :
    (mapElements g v).elements = v.elements.map (List.map g) := by
  cases v with
  | dict fields => simp [mapElements, Value.elements, Except.map, fixed]
  | str s => simp [mapElements, Value.elements, Except.map, fixed]
  | _ => rfl

theorem truthy_mapElements (g : Value → Value) (v : Value) :
    (mapElements g v).truthy = v.truthy := by
  cases v with
  | list xs => simp [mapElements, Value.truthy]
  | _ => rfl

end Fields

/-- Keys renamed along with the numbers they stand for. -/
def renameKey (f : Int → Int) : Key → Key
  | .num q => .num (if q.den = 1 then f q.num else q)
  | k => k

theorem renameKey_injective {f : Int → Int} (inj : f.Injective) : (renameKey f).Injective := by
  intro k₁ k₂ same
  cases k₁ <;> cases k₂ <;> simp only [renameKey, reduceCtorEq, Key.num.injEq] at same ⊢
  · rename_i q₁ q₂
    split at same <;> split at same <;> rename_i h₁ h₂
    · have nums := inj (Int.cast_injective same)
      exact Rat.ext nums (h₁.trans h₂.symm)
    · exact absurd (same ▸ Rat.den_intCast _) h₂
    · exact absurd (same ▸ Rat.den_intCast _) h₁
    · exact same
  · exact same

theorem key_renameBatch (f : Int → Int) (v : Value) :
    (renameBatch f v).key = v.key.map (renameKey f) := by
  cases v with
  | float q =>
      by_cases whole : q.den = 1 <;>
        simp [renameBatch, integer, Value.key, renameKey, Except.map, whole]
  | bool b => cases b <;> simp [renameBatch, integer, Value.key, renameKey, Except.map]
  | int z => simp [renameBatch, integer, Value.key, renameKey, Except.map]
  | _ => rfl

/-! ### Test cases under other batch numbers -/

section Cases

variable {f : Int → Int}

def batchFields : List String := ["batch_no", "batch_depends", "batch_dependencies"]

theorem renameField_other {name : String} (other : name ∉ batchFields) (v : Value) :
    renameField f name v = v := by
  simp only [batchFields, List.mem_cons, List.not_mem_nil, or_false, not_or] at other
  simp [renameField, other]

theorem get_renameCase {name : String} (other : name ∉ batchFields) (tc default : Value) :
    (renameCase f tc).get name default = tc.get name default := by
  rw [renameCase, get_mapFields tc name (renameField_other other default),
    funext (renameField_other (f := f) other)]
  exact congrFun Except.map_id _

theorem item_renameCase {name : String} (other : name ∉ batchFields) (tc : Value) :
    (renameCase f tc).item name = tc.item name := by
  rw [renameCase, item_mapFields, funext (renameField_other (f := f) other)]
  exact congrFun Except.map_id _

/-- The sandbox is not told about batches. -/
theorem buildJudgeCase_rename (problem tc : Value) :
    buildJudgeCase problem (renameCase f tc) = buildJudgeCase problem tc := by
  simp (disch := decide) only [buildJudgeCase, resolveInputRef, resolveOutputRef,
    buildJudgeLimits, caseLimits, caseOrProblem, outputLimitBytes, item_renameCase, get_renameCase]

namespace StandardMode

theorem caseMeta_rename (tests : List Value) (i : Nat) :
    caseMeta (tests.map (renameCase f)) i = renameCase f (caseMeta tests i) := by
  simp only [caseMeta, List.getD_eq_getElem?_getD, List.getElem?_map]
  cases tests[i]? <;> rfl

theorem caseNumber_rename (tc : Value) (i : Nat) :
    caseNumber (renameCase f tc) i = caseNumber tc i := by
  rw [caseNumber, caseNumber, get_renameCase (by decide)]

theorem judgeCase_rename (stopOnFirst : Bool) (tests : List Value) :
    judgeCase stopOnFirst (tests.map (renameCase f)) = judgeCase stopOnFirst tests := by
  funext progress answer
  simp (disch := decide) only [judgeCase, caseMeta_rename, caseNumber_rename, caseResult,
    get_renameCase]

theorem padSkipped_rename (stopOnFirst : Bool) (tests : List Value) (progress : Progress) :
    padSkipped stopOnFirst (tests.map (renameCase f)) progress =
      padSkipped stopOnFirst tests progress := by
  rw [padSkipped, padSkipped, List.zipIdx_map, ← List.map_drop, List.mapM_map]
  simp only [Function.comp_def, Prod.map, caseNumber_rename, id]

theorem dependencyKeys_rename (declared : Value) :
    dependencyKeys (mapElements (renameBatch f) declared) =
      (dependencyKeys declared).map (List.map (renameKey f)) := by
  have keys : ∀ xs : List Value, (xs.map (renameBatch f)).mapM Value.key =
      (xs.mapM Value.key).map (List.map (renameKey f)) := by
    intro xs
    rw [List.mapM_map, ← mapM_exceptMap]
    exact congrArg (xs.mapM ·) (funext fun v => key_renameBatch f v)
  rw [dependencyKeys, dependencyKeys, truthy_mapElements, elements_mapElements fun _ => rfl]
  split
  · cases declared.elements with
    | error e => rfl
    | ok xs => exact keys xs
  · rfl

/-- The batches a test case names in one of its fields. -/
def declaredKeys (tc : Value) (name : String) : Except Exc (List Key) :=
  tc.get name .none >>= dependencyKeys

theorem declaredKeys_rename (tc : Value) {name : String}
    (field : renameField f name = mapElements (renameBatch f)) :
    declaredKeys (renameCase f tc) name =
      (declaredKeys tc name).map (List.map (renameKey f)) := by
  rw [declaredKeys, renameCase, get_mapFields tc name (congrFun field .none), field, declaredKeys]
  cases tc.get name .none with
  | error e => rfl
  | ok declared => exact dependencyKeys_rename declared

theorem batchInfo_numbered {tc batchNo : Value} (read : tc.get "batch_no" .none = .ok batchNo)
    (numbered : batchNo ≠ .none) :
    batchInfo tc = (do
      let key ← batchNo.key
      let batchDepends ← declaredKeys tc "batch_depends"
      let batchDependencies ←
        if batchDepends.isEmpty then declaredKeys tc "batch_dependencies" else pure []
      return ⟨some key, batchDepends, batchDependencies⟩) := by
  simp only [declaredKeys, bind_assoc]
  rw [batchInfo, read]
  cases batchNo with
  | none => exact absurd rfl numbered
  | _ => rfl

theorem get_batchNo_rename (tc : Value) :
    (renameCase f tc).get "batch_no" .none = (tc.get "batch_no" .none).map (renameBatch f) :=
  get_mapFields tc "batch_no" rfl

theorem batchInfo_rename (tc : Value) :
    batchInfo (renameCase f tc) = (batchInfo tc).map (BatchInfo.rename (renameKey f)) := by
  have renamed := get_batchNo_rename (f := f) tc
  cases read : tc.get "batch_no" .none with
  | error e =>
      rw [batchInfo, batchInfo, renamed, read]
      rfl
  | ok batchNo =>
      rw [read] at renamed
      by_cases unnumbered : batchNo = .none
      · subst unnumbered
        rw [batchInfo, batchInfo, read, renamed]
        rfl
      · have numbered : renameBatch f batchNo ≠ .none := by
          rw [renameBatch]
          split
          · exact nofun
          · exact unnumbered
        rw [batchInfo_numbered read unnumbered, batchInfo_numbered renamed numbered, key_renameBatch,
          declaredKeys_rename tc rfl, declaredKeys_rename tc rfl]
        cases batchNo.key with
        | error e => rfl
        | ok key =>
            cases declaredKeys tc "batch_depends" with
            | error e => rfl
            | ok batchDepends =>
                cases batchDepends with
                | cons => rfl
                | nil => cases declaredKeys tc "batch_dependencies" <;> rfl

theorem score_rename (inj : f.Injective) (hasBatch hasCe : Bool) (tests : List Value)
    (raw : List (CaseResult Value)) :
    score hasBatch hasCe (tests.map (renameCase f)) raw = score hasBatch hasCe tests raw := by
  rw [score, score, ← List.map_take, List.mapM_map]
  have infos : (tests.take raw.length).mapM (batchInfo ∘ renameCase f) =
      ((tests.take raw.length).mapM batchInfo).map (List.map (BatchInfo.rename (renameKey f))) :=
    (congrArg (List.mapM · _) (funext batchInfo_rename)).trans (mapM_exceptMap ..)
  rw [infos]
  cases (tests.take raw.length).mapM batchInfo with
  | error e => rfl
  | ok infos =>
      have same : aggregateBatches Value.number raw _ = _ :=
        aggregateBatches_rename (renameKey_injective inj) raw infos
      split
      · exact same
      · rfl

theorem assemble_rename (inj : f.Injective) (submissionId problem : Value) (tests : List Value)
    (stopOnFirst hasBatch : Bool) (batch : BatchAnswer) :
    assemble submissionId problem (tests.map (renameCase f)) stopOnFirst hasBatch batch =
      assemble submissionId problem tests stopOnFirst hasBatch batch := by
  simp only [assemble, judgeCase_rename, padSkipped_rename, score_rename inj]

theorem item_renameBatches (payload : Value) {name : String} (other : name ≠ "test_cases") :
    (renameBatches f payload).item name = payload.item name := by
  rw [renameBatches, item_mapFields]
  simp only [other, if_false]
  exact congrFun Except.map_id _

/-- The choice of the strategy apart, renaming batches makes no difference. -/
theorem judge_rename (inj : f.Injective) (payload : Value)
    (strategy : ∀ tests, (payload.item "test_cases" >>= Value.elements) = .ok tests →
      anyBatch (tests.map (renameCase f)) = anyBatch tests) :
    judge (renameBatches f payload) = judge payload := by
  have read : (renameBatches f payload).item "test_cases" =
      (payload.item "test_cases").map (mapElements (renameCase f)) := item_mapFields payload _
  have build : ∀ tests problem, buildJudgeCases (tests.map (renameCase f)) problem =
      buildJudgeCases tests problem := by
    intro tests problem
    rw [buildJudgeCases, List.mapM_map]
    exact congrArg (List.mapM · tests) (funext (buildJudgeCase_rename problem))
  have fixed : ∀ s, renameCase f (.str s) = .str s := fun _ => rfl
  simp (disch := decide) only [judge, item_renameBatches, read]
  cases declared : payload.item "test_cases" with
  | error e => rfl
  | ok testCasesData =>
      simp only [Except.map, Program.lift_ok_bind, elements_mapElements fixed]
      cases elements : testCasesData.elements with
      | error e => rfl
      | ok tests =>
          have same := strategy tests (bind_eq_ok.mpr ⟨testCasesData, declared, elements⟩)
          simp only [Program.lift_ok_bind, build, same, assemble_rename inj]

/-! ### Whole runs -/

/-- What a result says about a submission and, case by case, about its cases. -/
def outcome : Except Exc (JudgeResult Value) →
    Except Exc (RunStatus × Option Verdict × ℚ × List (Verdict × Value)) :=
  Except.map fun r => (r.status, r.result, r.score, r.cases.map fun c => (c.result, c.points))

/-- The test cases of a request have these batch numbers. -/
def HasBatchNumbers (payload : Value) (bs : List Value) : Prop :=
  ∃ tests, (payload.item "test_cases" >>= Value.elements) = .ok tests ∧
    tests.mapM (fun tc => tc.get "batch_no" .none) = .ok bs

/-- One of them counts as true. -/
def AnyCounts (bs : List Value) : Prop := ∃ b ∈ bs, b.truthy = true

theorem anyBatch_eq {tests bs : List Value}
    (read : tests.mapM (fun tc => tc.get "batch_no" .none) = .ok bs) :
    anyBatch tests = .ok (bs.any Value.truthy) := by
  induction tests generalizing bs with
  | nil =>
      cases read
      rfl
  | cons tc tests ih =>
      rw [List.mapM_cons] at read
      obtain ⟨b, hb, read⟩ := bind_eq_ok.mp read
      obtain ⟨rest, hrest, read⟩ := bind_eq_ok.mp read
      cases read
      rw [anyBatch, hb, ih hrest]
      change (if b.truthy then _ else _) = _
      split <;> rename_i counts
      · rw [List.any_cons, counts]
        rfl
      · rw [List.any_cons, Bool.eq_false_iff.mpr counts]
        rfl

theorem batchNumbers_rename {tests bs : List Value}
    (read : tests.mapM (fun tc => tc.get "batch_no" .none) = .ok bs) :
    (tests.map (renameCase f)).mapM (fun tc => tc.get "batch_no" .none) =
      .ok (bs.map (renameBatch f)) := by
  rw [List.mapM_map]
  refine (congrArg (List.mapM · tests) (funext get_batchNo_rename)).trans ?_
  rw [mapM_exceptMap, read]
  rfl

/-! ### A sandbox that is told the strategy -/

/-- A test case of which nothing but the batch number is of interest. -/
def numbered (b : Value) : Value := .dict [("case_no", .int 1), ("batch_no", b)]

theorem numbers_numbered (bs : List Value) :
    (bs.map numbered).mapM (fun tc => tc.get "batch_no" .none) = .ok bs := by
  rw [List.mapM_map]
  exact (List.mapM_pure (m := Except Exc) (f := id)).trans (congrArg _ (List.map_id bs))

/-- A compiler that gives up when the sandbox may stop early. -/
def strategyBatch (stopOnFirst : Bool) : BatchAnswer :=
  ⟨0, { finished with status := if stopOnFirst then .CE else .AC }, "", []⟩

def strategyWorld : World Unit
  | .runCases request, s => (.ok (strategyBatch request.stopOnFirstFailure), s)
  | op, s => (scriptOf []).world op s

def fullProblem : Value :=
  .dict [("code", .str "p"), ("time_limit_ms", .int 1000), ("memory_limit_kb", .int 65536),
    ("points", .float 100), ("partial", .bool false)]

def unlimitedCase : JudgeCase :=
  ⟨"1", ⟨⟨none, .str ""⟩, "", ""⟩, none,
    ⟨.int 1000, .int 3000, .int (65536 * 1024), 256, some (8 * 1024 * 1024)⟩⟩

theorem run_buildJudgeCases (bs : List Value) :
    (buildJudgeCases (bs.map numbered) fullProblem).run strategyWorld () =
      (.ok (bs.map fun _ => unlimitedCase), ()) := by
  induction bs with
  | nil => rfl
  | cons b bs ih =>
      rw [buildJudgeCases] at ih
      rw [buildJudgeCases, List.map_cons, List.mapM_cons]
      refine (Program.run_bind_ok strategyWorld (a := unlimitedCase) rfl).trans ?_
      exact (Program.run_bind_ok strategyWorld ih).trans rfl

theorem run_numbered {bs : List Value} (some : bs ≠ []) :
    (judge (requestWorth 100 false (bs.map numbered))).run strategyWorld () =
      (assemble (.str "s") fullProblem (bs.map numbered) (!bs.any Value.truthy)
        (bs.any Value.truthy) (strategyBatch (!bs.any Value.truthy)), ()) := by
  have strategy := anyBatch_eq (numbers_numbered bs)
  obtain ⟨b, bs, rfl⟩ := List.exists_cons_of_ne_nil some
  rw [judge]
  -- Everything the request is read for is there.
  iterate 9 refine (Program.run_bind_ok strategyWorld rfl).trans ?_
  refine (Program.run_bind_ok strategyWorld (run_buildJudgeCases _)).trans ?_
  rw [strategy]
  generalize (b :: bs).any Value.truthy = hasBatch
  cases hasBatch <;> rfl

theorem judge_numbered {bs : List Value} (some : bs ≠ []) :
    outcome ((judge (requestWorth 100 false (bs.map numbered))).run strategyWorld ()).1 =
      .ok (.COMPLETED, if bs.any Value.truthy then .some .AC else .some .CE, 0, []) := by
  rw [run_numbered some]
  cases bs.any Value.truthy <;> rfl

/-- A renaming of batches changes nothing of what is reported, for any request with these batch
numbers and any sandbox, exactly when it does not change whether one of the numbers counts as
true. -/
theorem judge_renamed_iff (inj : f.Injective) (bs : List Value) :
    (∀ payload, HasBatchNumbers payload bs → ∀ (σ : Type) (h : World σ) (s : σ),
      outcome ((judge (renameBatches f payload)).run h s).1 =
        outcome ((judge payload).run h s).1) ↔
    (AnyCounts (bs.map (renameBatch f)) ↔ AnyCounts bs) := by
  have counts : ∀ bs : List Value, AnyCounts bs ↔ bs.any Value.truthy = true :=
    fun _ => List.any_eq_true.symm
  rw [counts, counts]
  constructor
  · intro same
    by_cases empty : bs = []
    · subst empty
      rfl
    · have renamed : renameBatches f (requestWorth 100 false (bs.map numbered)) =
          requestWorth 100 false ((bs.map (renameBatch f)).map numbered) := by
        rw [List.map_map, show numbered ∘ renameBatch f = renameCase f ∘ numbered from rfl,
          ← List.map_map]
        rfl
      have outcomes := same (requestWorth 100 false (bs.map numbered))
        ⟨_, rfl, numbers_numbered bs⟩ Unit strategyWorld ()
      rw [renamed, judge_numbered empty, judge_numbered (by simpa using empty)] at outcomes
      cases first : (bs.map (renameBatch f)).any Value.truthy <;>
        cases second : bs.any Value.truthy <;> simp [first, second] at outcomes ⊢
  · rintro same payload ⟨tests, read, numbers⟩ σ h s
    rw [judge_rename inj]
    intro tests' read'
    obtain rfl := Except.ok.inj (read.symm.trans read')
    rw [anyBatch_eq numbers, anyBatch_eq (batchNumbers_rename numbers), Bool.eq_iff_iff.mpr same]

theorem judge_renamed_iff_neg :
    outcome ((judge (renameBatches (fun z => -z)
        (requestWorth 100 true [numbered (.int 1), numbered (.int 2)]))).run
          (printingWorld "1") ()).1 =
      outcome ((judge (requestWorth 100 true [numbered (.int 1), numbered (.int 2)])).run
        (printingWorld "1") ()).1 :=
  (judge_renamed_iff neg_injective [.int 1, .int 2]).mpr
    ⟨fun _ => ⟨_, List.mem_cons_self .., rfl⟩, fun _ => ⟨_, List.mem_cons_self .., rfl⟩⟩ _
    ⟨_, rfl, rfl⟩ _ _ _

/-- A failed case keeps its points in batch 0, which counts as none, and loses them in batch 1. -/
theorem judge_renamed_zero :
    ¬ ∀ f : Int → Int, f.Injective → ∀ (payload : Value) (σ : Type) (h : World σ) (s : σ),
      outcome ((judge (renameBatches f payload)).run h s).1 =
        outcome ((judge payload).run h s).1 := by
  intro same
  have outcomes := same (· + 1) (add_left_injective 1)
    (requestWorth 100 true [.dict [("case_no", .int 1), ("points", .int 50), ("batch_no", .int 0)]])
    Unit (printingWorld "2") ()
  have points := congrArg (fun o => o.toOption.map fun r => r.2.2.2.map fun c => c.2.number.toOption)
    outcomes
  exact absurd points (by decide +kernel)

end StandardMode

end Cases

end AcojWorker
