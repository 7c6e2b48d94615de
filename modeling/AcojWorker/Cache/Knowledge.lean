import AcojWorker.Cache.Discipline

/-!
# What a thread knows of the cache

A thread knows its locks, what it has downloaded, its temporary files, and files of the hash
keys it has locked. No other thread can make that wrong. Most programs of the cache keep all
of it; the rules for them are given here, call by call.
-/

namespace AcojWorker.FileCache

open Python Effect Discipline

structure Knowledge where
  depth : Key → Nat
  fetched : Option Bytes
  files : Path → Option (Option File)
  temps : Nat → Option (Option File)

namespace Knowledge

/-- Nothing but the locks and the download. -/
def bare (depth : Key → Nat) (fetched : Option Bytes) : Knowledge where
  depth := depth
  fetched := fetched
  files := fun _ => none
  temps := fun _ => none

def resting : Knowledge := bare (fun _ => 0) none

def locked (κ : Knowledge) (key : Key) : Knowledge :=
  { κ with depth := Function.update κ.depth key (κ.depth key + 1) }

def withTemp (κ : Knowledge) (temp : Nat) (file : Option File) : Knowledge :=
  { κ with temps := Function.update κ.temps temp (some file) }

def withFile (κ : Knowledge) (path : Path) (file : Option File) : Knowledge :=
  { κ with files := Function.update κ.files path (some file) }

def withFetched (κ : Knowledge) (content : Option Bytes) : Knowledge :=
  { κ with fetched := content }

theorem withTemp_comm (κ : Knowledge) {a b : Nat} (apart : a ≠ b) (x y : Option File) :
    (κ.withTemp a x).withTemp b y = (κ.withTemp b y).withTemp a x := by
  simp only [withTemp, Function.update_comm apart]

end Knowledge

structure Knows (K : Keys) (t : Nat) (κ : Knowledge) (w : World) : Prop where
  depth : ∀ key, w.depth t key = κ.depth key
  fetched : w.fetched t = κ.fetched
  files : ∀ path x, κ.files path = some x → w.files path = x
  temps : ∀ temp x, κ.temps temp = some x → w.temps temp = some (t, x)
  held : ∀ path x, κ.files path = some x →
    ∃ h, hashKey h ∈ K.keys ∧ Owns (hashKey h) path ∧ 0 < κ.depth (hashKey h)

section Rules

variable {K : Keys} {sha256 : Bytes → String} {t : Nat} {κ : Knowledge} {α β : Type}

theorem knows_stable : (locking K sha256).Stable t (Knows K t κ) := by
  intro w w' knows rely
  refine ⟨fun key => (rely.depth key).trans (knows.depth key),
    rely.fetched.trans knows.fetched, fun path x hx => ?_,
    fun temp x hx => rely.temps temp x (knows.temps temp x hx), knows.held⟩
  obtain ⟨h, mem, owns, depth⟩ := knows.held path x hx
  rw [rely.files h mem (by rw [knows.depth]; exact depth) path owns]
  exact knows.files path x hx

theorem knows_bare {w : World} (knows : Knows K t κ w) :
    Knows K t (.bare κ.depth κ.fetched) w :=
  ⟨knows.depth, knows.fetched, nofun, nofun, nofun⟩

/-- A temporary file that is not mentioned is forgotten. -/
theorem knows_of_withTemp {temp : Nat} {x : Option File} {w : World} (unknown : κ.temps temp = none)
    (knows : Knows K t (κ.withTemp temp x) w) : Knows K t κ w := by
  refine ⟨knows.depth, knows.fetched, knows.files, fun i y hy => ?_, knows.held⟩
  have apart : i ≠ temp := by
    rintro rfl
    rw [unknown] at hy
    exact nomatch hy
  exact knows.temps i y ((Function.update_of_ne apart _ _).trans hy)

theorem knows_mayChange {key : Key} (mem : key ∈ K.keys) (held : 0 < κ.depth key) {w : World}
    (knows : Knows K t κ w) {path : Path} (owns : Owns key path) : MayChange K t w path :=
  mayChange_of_depth mem (by rw [knows.depth]; exact held) owns

/-- The program keeps all the thread knows, also if it raises, and returns a value with `Q`. -/
def Preserves (K : Keys) (sha256 : Bytes → String) (t : Nat) (κ : Knowledge) (p : Caching α)
    (Q : α → Prop) : Prop :=
  (locking K sha256).Triple t (Knows K t κ) p
    (Post (fun a w => Knows K t κ w ∧ Q a) fun _ => Knows K t κ)

theorem preserves_ret {a : α} {Q : α → Prop} (ha : Q a) :
    Preserves K sha256 t κ (.ret a) Q :=
  triple_ret fun _ _ knows => ⟨knows, ha⟩

theorem preserves_raise (e : Exc) {Q : α → Prop} : Preserves K sha256 t κ (.raise e) Q :=
  triple_raise fun _ _ knows => knows

theorem preserves_mono {p : Caching α} {Q Q' : α → Prop} (hp : Preserves K sha256 t κ p Q)
    (weaker : ∀ a, Q a → Q' a) : Preserves K sha256 t κ p Q' := by
  refine triple_post hp ?_
  rintro (e | a) w _ h
  · exact h
  · exact ⟨h.1, weaker a h.2⟩

theorem preserves_bind {p : Caching β} {f : β → Caching α} {R : β → Prop} {Q : α → Prop}
    (hp : Preserves K sha256 t κ p R) (hf : ∀ b, R b → Preserves K sha256 t κ (f b) Q) :
    Preserves K sha256 t κ (p >>= f) Q := by
  refine triple_bind (R := fun b w => Knows K t κ w ∧ R b) hp fun b => ?_
  rintro w intact ⟨knows, hb⟩
  exact hf b hb w intact knows

/-- A step of which only the knowledge it keeps is used. -/
theorem preserves_step {p : Caching β} {f : β → Caching α} {R : β → Prop} {Q : α → Prop}
    (hp : Preserves K sha256 t κ p R) (hf : ∀ b, Preserves K sha256 t κ (f b) Q) :
    Preserves K sha256 t κ (p >>= f) Q :=
  preserves_bind hp fun b _ => hf b

theorem preserves_lift {x : Except Exc α} {Q : α → Prop} (ok : ∀ a, x = .ok a → Q a) :
    Preserves K sha256 t κ (liftM x) Q :=
  triple_lift (fun a _ ha _ knows => ⟨knows, ok a ha⟩) (fun _ _ _ _ knows => knows)

theorem preserves_tryCatch {p : Caching α} {handler : Exc → Caching α} {Q : α → Prop}
    (hp : Preserves K sha256 t κ p Q) (hh : ∀ e, Preserves K sha256 t κ (handler e) Q) :
    Preserves K sha256 t κ (p.tryCatch handler) Q :=
  triple_tryCatch hp hh

theorem preserves_ite {c : Prop} [Decidable c] {p q : Caching α} {Q : α → Prop}
    (hp : c → Preserves K sha256 t κ p Q) (hq : ¬ c → Preserves K sha256 t κ q Q) :
    Preserves K sha256 t κ (if c then p else q) Q :=
  triple_ite hp hq

theorem preserves_foldlM {γ : Type} {I : α → Prop} {f : α → γ → Caching α} {xs : List γ}
    (round : ∀ a, I a → ∀ x ∈ xs, Preserves K sha256 t κ (f a x) I) {a : α} (start : I a) :
    Preserves K sha256 t κ (xs.foldlM f a) I := by
  refine triple_pre (triple_foldlM (I := fun a w => Knows K t κ w ∧ I a) ?_ a)
    fun w _ knows => ⟨knows, start⟩
  rintro a x hx w intact ⟨knows, ha⟩
  exact round a ha x hx w intact knows

/-! ### Calls that change nothing -/

/-- A call that changes nothing and is not observed. -/
theorem preserves_quiet {op : CacheOp} {Q : op.Answer → Prop}
    (quiet : ∀ w r w', exec t op w r w' → w' = w) (good : ∀ w, Verified sha256 t op w)
    (answer : ∀ w a w', Intact K sha256 w → Knows K t κ w → TimelyStore op w →
      exec t op w (.ok a) w' → Q a) :
    Preserves K sha256 t κ (call op) Q := by
  refine triple_perform knows_stable (fun w _ _ _ => good w) ?_
  intro w r w' intact knows allowed hexec
  obtain rfl := quiet w r w' hexec
  refine ⟨keeps_same intact, ?_⟩
  cases r with
  | ok a => exact ⟨knows, answer w' a w' intact knows allowed hexec⟩
  | error e => exact knows

theorem preserves_any {op : CacheOp} (quiet : ∀ w r w', exec t op w r w' → w' = w)
    (good : ∀ w, Verified sha256 t op w) : Preserves K sha256 t κ (call op) fun _ => True :=
  preserves_quiet quiet good fun _ _ _ _ _ _ _ => trivial

theorem preserves_pathExists (path : Path) :
    Preserves K sha256 t κ (call (.pathExists path))
      fun found : Bool => ∀ x, κ.files path = some x → found = x.isSome := by
  refine preserves_quiet (fun _ _ _ h => h.1) (fun _ => trivial) ?_
  intro w found w' intact knows _ h x hx
  obtain ⟨file, dir⟩ := h.2 found rfl
  obtain ⟨hash, mem, owns, _⟩ := knows.held path x hx
  rw [← knows.files path x hx]
  exact Bool.eq_iff_iff.mpr
    ⟨fun yes => (dir yes).resolve_right (not_isDir intact mem owns), file⟩

theorem preserves_loadJson (path : Path) :
    Preserves K sha256 t κ (call (.loadJson path))
      fun v : Value => (∃ key ∈ K.keys, Owns key path) ∧ ∀ x, κ.files path = some x → Reads x v := by
  refine preserves_quiet (fun _ _ _ h => h.1) (fun _ => trivial) ?_
  intro w v w' intact knows _ h
  have read := h.2 v rfl
  refine ⟨?_, fun x hx => ?_⟩
  · match hfile : w.files path, read with
    | some file, _ => exact intact.owned path file hfile
  · rw [← knows.files path x hx]
    exact read

theorem preserves_evictionTime (entries : List Entry) (since : Option ℚ) :
    Preserves K sha256 t κ (call (.evictionTime entries since))
      fun now : ℚ => ∀ s, since = some s → now < s + lruGracePeriod := by
  refine triple_perform knows_stable (fun _ _ _ _ => trivial) ?_
  rintro w r w' intact knows allowed ⟨rfl, rfl⟩
  refine ⟨keeps_before intact _, ⟨knows.depth, knows.fetched, knows.files, knows.temps,
    knows.held⟩, ?_⟩
  rintro s rfl
  exact allowed

/-! ### Files -/

theorem preserves_mkdirParent {key : Key} (mem : key ∈ K.keys) {path : Path}
    (owns : Owns key path) :
    Preserves K sha256 t κ (call (.mkdirParent path)) fun _ => True := by
  refine triple_perform knows_stable (fun _ _ _ _ => trivial) ?_
  rintro w r w' intact knows _ (rfl | rfl)
  · refine ⟨keeps_same intact, ?_⟩
    cases r with
    | ok a => exact ⟨knows, trivial⟩
    | error e => exact knows
  · have kept : Knows K t κ (w.makeDirs path) :=
      ⟨knows.depth, knows.fetched, knows.files, knows.temps, knows.held⟩
    refine ⟨keeps_makeDirs intact ⟨key, mem, owns⟩, ?_⟩
    cases r with
    | ok a => exact ⟨kept, trivial⟩
    | error e => exact kept

theorem preserves_unlinkCall {path : Path} (unknown : κ.files path = none)
    (may : ∀ w, Knows K t κ w → MayChange K t w path) :
    Preserves K sha256 t κ (call (.unlink path)) fun _ => True := by
  refine triple_perform knows_stable (fun _ _ _ _ => trivial) ?_
  rintro w r w' intact knows _ (⟨e, rfl, rfl⟩ | ⟨rfl, rfl⟩)
  · exact ⟨keeps_same intact, knows⟩
  · refine ⟨keeps_remove intact (may w knows), ⟨knows.depth, knows.fetched, fun p x hx => ?_,
      knows.temps, knows.held⟩, trivial⟩
    have apart : p ≠ path := by
      rintro rfl
      rw [unknown] at hx
      exact nomatch hx
    exact (Function.update_of_ne apart _ _).trans (knows.files p x hx)

/-- A new temporary file is the thread's own. -/
theorem triple_tempSibling (path : Path) :
    (locking K sha256).Triple t (Knows K t κ) (call (.tempSibling path))
      (Post (fun (temp : Nat) w => κ.temps temp = none ∧ Knows K t (κ.withTemp temp none) w)
        fun _ => Knows K t κ) := by
  refine triple_perform knows_stable (fun _ _ _ _ => trivial) ?_
  rintro w r w' intact knows _ ⟨temp, fresh, rfl, rfl⟩
  have unknown : κ.temps temp = none := by
    cases hx : κ.temps temp with
    | none => rfl
    | some x => exact absurd (fresh.symm.trans (knows.temps temp x hx)) nofun
  refine ⟨keeps_setTemp intact (by simp [fresh]), unknown, knows.depth, knows.fetched,
    knows.files, fun i y hy => ?_, knows.held⟩
  by_cases same : i = temp
  · subst same
    simp only [Knowledge.withTemp, Function.update_self, Option.some.injEq] at hy
    simp [World.setTemp, hy]
  · simp only [Knowledge.withTemp, Function.update_of_ne same] at hy
    exact (Function.update_of_ne same _ _).trans (knows.temps i y hy)

theorem knows_setTemp {temp : Nat} {x y : Option File} {w : World}
    (knows : Knows K t (κ.withTemp temp x) w) :
    Knows K t (κ.withTemp temp y) (w.setTemp temp (some (t, y))) := by
  refine ⟨knows.depth, knows.fetched, knows.files, fun i z hz => ?_, knows.held⟩
  by_cases same : i = temp
  · subst same
    simp only [Knowledge.withTemp, Function.update_self, Option.some.injEq] at hz
    simp [World.setTemp, hz]
  · simp only [Knowledge.withTemp, Function.update_of_ne same] at hz
    exact (Function.update_of_ne same _ _).trans
      (knows.temps i z ((Function.update_of_ne same _ _).trans hz))

theorem temp_owner {temp : Nat} {x : Option File} {w : World}
    (knows : Knows K t (κ.withTemp temp x) w) (u : Nat) (y : Option File)
    (h : w.temps temp = some (u, y)) : u = t := by
  have own := knows.temps temp x (Function.update_self ..)
  rw [own] at h
  exact (congrArg Prod.fst (Option.some.inj h)).symm

theorem triple_writeTemp (temp : Nat) (x : Option File) (file : File) :
    (locking K sha256).Triple t (Knows K t (κ.withTemp temp x)) (call (.writeTemp temp file))
      (Post (fun _ => Knows K t (κ.withTemp temp (some file)))
        fun _ w => ∃ left, Knows K t (κ.withTemp temp left) w) := by
  refine triple_perform knows_stable (fun _ _ _ _ => trivial) ?_
  rintro w r w' intact knows _ (⟨e, left, rfl, rfl⟩ | ⟨rfl, rfl⟩)
  · exact ⟨keeps_setTemp intact (temp_owner knows), left, knows_setTemp knows⟩
  · exact ⟨keeps_setTemp intact (temp_owner knows), knows_setTemp knows⟩

/-- A temporary file of the thread takes the place of a file it may change. -/
theorem triple_replace {temp : Nat} {file : File} {key : Key} {path : Path}
    (unknownTemp : κ.temps temp = none) (unknown : κ.files path = none) (mem : key ∈ K.keys)
    (held : 0 < κ.depth key) (owns : Owns key path)
    (hashed : ∀ h, hashKey h ∈ K.keys → path = dataPath (hashKey h) →
      ∃ content, file = .data content ∧ sha256 content = h) :
    (locking K sha256).Triple t (Knows K t (κ.withTemp temp (some file))) (call (.replace temp path))
      (Post (fun _ w => Knows K t κ w ∧ w.files path = some file)
        fun _ => Knows K t (κ.withTemp temp (some file))) := by
  refine triple_perform knows_stable (fun _ _ _ _ => trivial) ?_
  rintro w r w' intact knows _ (⟨e, rfl, rfl⟩ | ⟨owner, f, htemp, rfl, rfl⟩)
  · exact ⟨keeps_same intact, knows⟩
  have written := knows.temps temp (some file) (Function.update_self ..)
  obtain rfl : file = f := by
    rw [written] at htemp
    simpa using congrArg (Option.map Prod.snd) htemp
  have kept := knows_of_withTemp unknownTemp knows
  have keepsTemp := keeps_setTemp (x := none) intact (temp_owner knows)
  have keepsPut := keeps_put (t := t) keepsTemp.1
    (fun h hmem howns => knows_mayChange mem held kept owns h hmem howns) ⟨key, mem, owns⟩ hashed
  refine ⟨⟨keepsPut.1, fun u other => (locking K sha256).rely_trans (keepsTemp.2 u other)
    (keepsPut.2 u other)⟩, ⟨kept.depth, kept.fetched, fun p x hx => ?_, fun i y hy => ?_,
    kept.held⟩, Function.update_self ..⟩
  · have apart : p ≠ path := by
      rintro rfl
      rw [unknown] at hx
      exact nomatch hx
    exact (Function.update_of_ne apart _ _).trans (kept.files p x hx)
  · have apart : i ≠ temp := by
      rintro rfl
      rw [unknownTemp] at hy
      exact nomatch hy
    exact (Function.update_of_ne apart _ _).trans (kept.temps i y hy)

theorem triple_unlinkTemp {temp : Nat} {x : Option File} (unknown : κ.temps temp = none) :
    (locking K sha256).Triple t (Knows K t (κ.withTemp temp x)) (call (.unlinkTemp temp))
      (Post (fun _ => Knows K t κ) fun _ => Knows K t κ) := by
  refine triple_perform knows_stable (fun _ _ _ _ => trivial) ?_
  rintro w r w' intact knows _ (⟨e, rfl, rfl⟩ | ⟨rfl, rfl⟩)
  · exact ⟨keeps_same intact, knows_of_withTemp unknown knows⟩
  · have kept := knows_of_withTemp unknown knows
    refine ⟨keeps_setTemp intact (temp_owner knows), kept.depth, kept.fetched, kept.files,
      fun i y hy => ?_, kept.held⟩
    have apart : i ≠ temp := by
      rintro rfl
      rw [unknown] at hy
      exact nomatch hy
    exact (Function.update_of_ne apart _ _).trans (kept.temps i y hy)

/-! ### Downloads and locks -/

theorem triple_download (objectName : String) :
    (locking K sha256).Triple t (Knows K t κ) (call (.download objectName))
      (Post (fun (content : Bytes) => Knows K t (κ.withFetched (some content)))
        fun _ => Knows K t κ) := by
  refine triple_perform knows_stable (fun _ _ _ _ => trivial) ?_
  rintro w r w' intact knows _ (⟨e, rfl, rfl⟩ | ⟨content, rfl, rfl⟩)
  · exact ⟨keeps_same intact, knows⟩
  · exact ⟨keeps_fetched intact _, knows.depth, Function.update_self .., knows.files,
      knows.temps, knows.held⟩

theorem knows_lock {w : World} {key : Key} (knows : Knows K t κ w) :
    Knows K t (κ.locked key) (w.lock t key) := by
  have deeper : ∀ k, κ.depth k ≤ (κ.locked key).depth k := by
    intro k
    by_cases same : k = key
    · subst same
      simp [Knowledge.locked]
    · simp [Knowledge.locked, same]
  refine ⟨fun k => ?_, knows.fetched, knows.files, knows.temps, fun path x hx => ?_⟩
  · rw [depth_lock, knows.depth, knows.depth]
    by_cases same : k = key
    · subst same
      simp [Knowledge.locked]
    · simp [Knowledge.locked, same]
  · obtain ⟨h, mem, owns, depth⟩ := knows.held path x hx
    exact ⟨h, mem, owns, lt_of_lt_of_le depth (deeper _)⟩

/-- Taking a lock does not fail. -/
theorem triple_acquire (key : Key) {E : Exc → World → Prop} :
    (locking K sha256).Triple t (Knows K t κ) (call (.acquire key))
      (Post (fun _ => Knows K t (κ.locked key)) E) := by
  refine triple_perform knows_stable (fun _ _ _ _ => trivial) ?_
  rintro w r w' intact knows _ ⟨free, rfl, rfl⟩
  exact ⟨keeps_lock intact free, knows_lock knows⟩

/-- What is left of the knowledge in a block when its lock is released. -/
structure Leaving (K : Keys) (key : Key) (κ κ' : Knowledge) : Prop where
  depth : ∀ k, κ'.depth k = if k = key then κ.depth key - 1 else κ.depth k
  fetched : κ'.fetched = none
  files : ∀ path x, κ'.files path = some x → κ.files path = some x ∧
    ∃ h, hashKey h ∈ K.keys ∧ Owns (hashKey h) path ∧ 0 < κ'.depth (hashKey h)
  temps : ∀ temp x, κ'.temps temp = some x → κ.temps temp = some x

/-- Knowledge with which a block may end in an outcome. -/
structure MayLeave (sha256 : Bytes → String) (key : Key) (outcome : Except Exc (Option Path))
    (κ : Knowledge) : Prop where
  held : 0 < κ.depth key
  path : ∀ h, key = hashKey h → ∀ path, outcome = .ok (some path) →
    ∃ content, κ.files path = some (some (.data content)) ∧ sha256 content = h
  mismatch : ∀ h, key = hashKey h → ∀ content, κ.fetched = some content → sha256 content ≠ h →
    (∃ e, outcome = .error e) ∧ κ.files (dataPath key) = some none

theorem triple_release {key : Key} {outcome : Except Exc (Option Path)} {κ' : Knowledge}
    {E : Exc → World → Prop} (may : MayLeave sha256 key outcome κ) (left : Leaving K key κ κ') :
    (locking K sha256).Triple t (Knows K t κ) (call (.release key outcome))
      (Post (fun _ => Knows K t κ') E) := by
  refine triple_perform knows_stable ?_ ?_
  · intro w _ knows _ h hkey
    refine ⟨fun path hpath => ?_, fun content hcontent mismatch => ?_⟩
    · obtain ⟨content, hfile, hash⟩ := may.path h hkey path hpath
      exact ⟨content, knows.files path _ hfile, hash⟩
    · rw [knows.fetched] at hcontent
      obtain ⟨raised, hfile⟩ := may.mismatch h hkey content hcontent mismatch
      exact ⟨raised, knows.files _ _ hfile⟩
  · rintro w r w' intact knows _ (⟨held, rfl, rfl⟩ | ⟨free, _, _⟩)
    · refine ⟨keeps_release intact held outcome, fun k => ?_, ?_, fun path x hx => ?_,
        fun temp x hx => knows.temps temp x (left.temps temp x hx), fun path x hx =>
          (left.files path x hx).2⟩
      · rw [depth_release held, left.depth, knows.depth, knows.depth]
      · rw [left.fetched]
        exact Function.update_self ..
      · exact knows.files path x (left.files path x hx).1
    · rw [knows.depth] at free
      exact absurd may.held (by rw [free]; exact lt_irrefl 0)

/-- The end of a block, known well enough to release the lock and to conclude `Q`. -/
def EndsBlock (K : Keys) (sha256 : Bytes → String) (t : Nat) (key : Key) (path : α → Option Path)
    (Q : Except Exc α → World → Prop) (r : Except Exc α) (w : World) : Prop :=
  ∃ κ κ', Knows K t κ w ∧ MayLeave sha256 key (r.map path) κ ∧ Leaving K key κ κ' ∧
    ∀ w, Knows K t κ' w → Q r w

theorem triple_leaving {key : Key} {path : α → Option Path} {block : Caching α}
    {Q : Except Exc α → World → Prop}
    (hblock : (locking K sha256).Triple t (Knows K t κ) block (EndsBlock K sha256 t key path Q)) :
    (locking K sha256).Triple t (Knows K t κ) (leaving key path block) Q := by
  refine triple_bind (R := EndsBlock K sha256 t key path Q)
    (triple_attempt (Q := Post (EndsBlock K sha256 t key path Q) fun e => Q (.error e)) hblock) ?_
  rintro outcome w intact ⟨κ₁, κ₂, knows, may, left, post⟩
  refine triple_bind (R := fun _ => Knows K t κ₂) (triple_release may left) (fun _ => ?_)
    w intact knows
  exact triple_lift (fun a w ha _ h => ha ▸ post w h) (fun e w he _ h => he ▸ post w h)

theorem triple_withKeyLock {key : Key} {path : α → Option Path} {block : Caching α}
    {Q : Except Exc α → World → Prop}
    (hblock : (locking K sha256).Triple t (Knows K t (κ.locked key)) block
      (EndsBlock K sha256 t key path Q)) :
    (locking K sha256).Triple t (Knows K t κ) (withKeyLock key path block) Q :=
  triple_bind (triple_acquire key) fun _ => triple_leaving hblock

/-- A block under a lock that is taken if it is free, by a thread that has downloaded nothing. -/
theorem preserves_tryKeyLock {key : Key} {evicting : Option ℚ} {skipped : α} {block : Caching α} {Q : α → Prop}
    (fetched : κ.fetched = none) (hskipped : Q skipped)
    (hblock : Preserves K sha256 t (κ.locked key) block Q) :
    Preserves K sha256 t κ (tryKeyLock key evicting skipped block) Q := by
  intro w intact knows
  have held := knows.held
  refine triple_bind (R := fun (acquired : Bool) w =>
    Knows K t (if acquired then κ.locked key else κ) w) ?_ ?_ w intact knows
  · refine triple_perform knows_stable (fun _ _ _ _ => trivial) ?_
    rintro w r w' intact knows _ (⟨free, rfl, rfl⟩ | ⟨_, rfl, rfl⟩)
    · exact ⟨keeps_lock intact free, knows_lock knows⟩
    · exact ⟨keeps_same intact, knows⟩
  · intro acquired
    cases acquired with
    | false => exact triple_ret fun _ _ knows => ⟨knows, hskipped⟩
    | true =>
        have back : Leaving K key (κ.locked key) κ := by
          refine ⟨fun k => ?_, fetched, fun path x hx => ⟨hx, held path x hx⟩, fun _ _ hx => hx⟩
          by_cases same : k = key
          · subst same
            simp [Knowledge.locked]
          · simp [Knowledge.locked, same]
        have may : ∀ outcome : Except Exc α,
            MayLeave sha256 key (outcome.map fun _ => (none : Option Path)) (κ.locked key) := by
          intro outcome
          refine ⟨by simp [Knowledge.locked], fun h _ path hpath => ?_,
            fun h _ content hcontent => ?_⟩
          · cases outcome <;> exact nomatch hpath
          · exact nomatch fetched.symm.trans hcontent
        refine triple_leaving (triple_post hblock ?_)
        rintro (e | a) w _ h
        · exact ⟨κ.locked key, κ, h, may (.error e), back, fun _ h => h⟩
        · exact ⟨κ.locked key, κ, h.1, may (.ok a), back, fun _ knows => ⟨knows, h.2⟩⟩

end Rules

end AcojWorker.FileCache
