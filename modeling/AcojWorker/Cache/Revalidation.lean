import AcojWorker.Cache.Steady

/-!
# Revalidation of an entry

A stale entry of an object name is checked against the remote storage. The storage may report
the object, or that there is none, or raise; an error is taken for an absent object.
-/

namespace AcojWorker.FileCache

open Python Effect

/-! ### Calls of the parts -/

/-- The remote storage is not asked for the state of an object. -/
def Unasking : CacheOp → Prop
  | .headObject _ => False
  | _ => True

/-- Moreover no file is removed. -/
def Harmless : CacheOp → Prop
  | .headObject _ | .unlink _ => False
  | _ => True

theorem Harmless.unasking (op : CacheOp) (harmless : Harmless op) : Unasking op := by
  cases op <;> first | exact trivial | exact harmless

section Calls

open Program

variable {α : Type} {C : CacheOp → Prop}

theorem calls_leaving {key : Key} {path : α → Option Path} {block : Caching α}
    (release : ∀ outcome, C (.release key outcome)) (hb : block.Calls C) :
    (leaving key path block).Calls C :=
  calls_bind (calls_attempt hb) fun _ =>
    calls_bind (calls_perform (release _)) fun _ => calls_lift _

theorem calls_tryKeyLock {key : Key} {evicting : Option ℚ} {skipped : α} {block : Caching α}
    (acquire : C (.tryAcquire key evicting)) (release : ∀ outcome, C (.release key outcome))
    (hb : block.Calls C) : (tryKeyLock key evicting skipped block).Calls C :=
  calls_bind (calls_perform acquire) fun _ =>
    calls_ite (fun _ => calls_leaving release hb) fun _ => trivial

theorem calls_withKeyLock {key : Key} {path : α → Option Path} {block : Caching α}
    (acquire : C (.acquire key)) (release : ∀ outcome, C (.release key outcome))
    (hb : block.Calls C) : (withKeyLock key path block).Calls C :=
  calls_bind (calls_perform acquire) fun _ => calls_leaving release hb

theorem calls_readMeta {path : Path} (load : C (.loadJson path)) : (readMeta path).Calls C :=
  calls_tryCatch (calls_perform load) fun _ => calls_ite (fun _ => trivial) fun _ => trivial

theorem calls_writeMeta (path : Path) (document : Value) :
    (writeMeta path document).Calls Harmless := by
  refine calls_bind (calls_perform trivial) fun tmp => ?_
  apply calls_tryCatch
  · exact calls_bind (calls_perform trivial) fun _ =>
      calls_bind (calls_perform trivial) fun _ => calls_perform trivial
  · exact fun e => calls_ite (fun _ => calls_tryCatch (calls_perform trivial) fun _ =>
      calls_ite (fun _ => trivial) fun _ => trivial) fun _ => trivial

theorem calls_updateMeta (path : Path) (updates : List (String × Value)) :
    (updateMeta path updates).Calls Harmless := by
  refine calls_bind (calls_readMeta trivial) fun document => ?_
  split
  · exact trivial
  · exact calls_bind (calls_lift _) fun _ => calls_writeMeta path _

theorem calls_touchMeta (path : Path) : (touchMeta path).Calls Harmless := by
  refine calls_bind (calls_readMeta trivial) fun document => ?_
  split
  · exact trivial
  · refine calls_bind (calls_perform trivial) fun now => calls_bind (calls_lift _) fun _ =>
      calls_bind (calls_lift _) fun _ => calls_ite (fun _ => trivial) fun _ => ?_
    exact calls_bind (calls_lift _) fun _ => calls_writeMeta path _

theorem calls_hit (key : Key) : (hit key).Calls Harmless :=
  calls_bind (calls_touchMeta _) fun _ => trivial

theorem calls_isFresh (key : Key) (exists_ : C (.pathExists (dataPath key)))
    (load : C (.loadJson (metaPath key))) (now : C .now) : (isFresh key).Calls C := by
  refine calls_bind (calls_perform exists_) fun _ => calls_ite (fun _ => ?_) fun _ => trivial
  refine calls_bind (calls_readMeta load) fun _ => calls_ite (fun _ => ?_) fun _ => trivial
  exact calls_bind (calls_perform now) fun _ =>
    calls_bind (calls_lift _) fun _ => calls_bind (calls_lift _) fun _ => trivial

theorem calls_unlink {path : Path} (sought : C (.pathExists path)) (gone : C (.unlink path)) :
    (unlink path).Calls C :=
  calls_tryCatch (calls_bind (calls_perform sought) fun _ =>
    calls_ite (fun _ => calls_perform gone) fun _ => trivial) fun _ =>
    calls_ite (fun _ => trivial) fun _ => trivial

theorem calls_removeEntry (key : Key) (sought : ∀ path, C (.pathExists path))
    (gone : ∀ path, C (.unlink path)) : (removeEntry key).Calls C :=
  calls_bind (calls_unlink (sought _) (gone _)) fun _ => calls_unlink (sought _) (gone _)

theorem calls_isCurrent (key : Key) (remoteEtag : String) :
    (isCurrent key remoteEtag).Calls Unasking := by
  refine calls_bind (calls_perform trivial) fun _ => calls_ite (fun _ => ?_) fun _ => trivial
  refine calls_bind (calls_readMeta trivial) fun _ => calls_bind (calls_lift _) fun _ =>
    calls_ite (fun _ => ?_) fun _ => calls_bind (calls_removeEntry key (fun _ => trivial) fun _ => trivial) fun _ => trivial
  exact calls_bind (calls_perform trivial) fun _ => calls_bind (calls_perform trivial) fun _ =>
    calls_bind (calls_mono (calls_updateMeta _ _) Harmless.unasking) fun _ => trivial

theorem calls_evictCandidates (needBytes : Int) (now freed : ℚ) (candidates : List Entry) :
    (evictCandidates needBytes now freed candidates).Calls Unasking := by
  induction candidates generalizing freed with
  | nil => exact trivial
  | cons entry candidates ih =>
      refine calls_ite (fun _ => trivial) fun _ => calls_bind ?_ fun freed => ih freed
      exact calls_tryKeyLock trivial (fun _ => trivial)
        (calls_bind (calls_removeEntry _ (fun _ => trivial) fun _ => trivial) fun _ => calls_bind (calls_lift _) fun _ => trivial)

theorem calls_collectEntry (load : ∀ path, C (.loadJson path)) (entries : List Entry)
    (path : Path) : (collectEntry entries path).Calls C := by
  refine calls_tryCatch (calls_bind (calls_perform (load _)) fun document => ?_) fun _ => trivial
  split
  · exact calls_ite (fun _ => calls_bind (calls_lift _) fun _ =>
      calls_bind (calls_lift _) fun _ => trivial) fun _ => trivial
  · exact trivial

theorem calls_collectStats (root : C .rootExists) (listed : C .metaFiles)
    (load : ∀ path, C (.loadJson path)) : collectStats.Calls C := by
  refine calls_bind (calls_perform root) fun found => calls_ite (fun _ => ?_) fun _ => trivial
  exact calls_bind (calls_perform listed) fun paths => calls_foldlM (calls_collectEntry load) _ _

theorem calls_calculateTotalSize (root : C .rootExists) (listed : C .metaFiles)
    (load : ∀ path, C (.loadJson path)) : calculateTotalSize.Calls C := by
  refine calls_bind (calls_perform root) fun found => calls_ite (fun _ => ?_) fun _ => trivial
  refine calls_bind (calls_perform listed) fun paths => calls_foldlM (fun _ path => ?_) _ _
  exact calls_tryCatch (calls_bind (calls_perform (load path)) fun _ => calls_bind (calls_lift _)
    fun _ => calls_bind (calls_lift _) fun _ => trivial) fun _ => trivial

theorem calls_evictLruIfNeeded (settings : Settings) (newSize : Int) (since : Option ℚ) :
    (evictLruIfNeeded settings newSize since).Calls Unasking := by
  refine calls_bind (calls_calculateTotalSize trivial trivial fun _ => trivial) fun total => ?_
  refine calls_ite (fun _ => trivial) fun _ => ?_
  refine calls_bind (calls_collectStats trivial trivial fun _ => trivial) fun entries => ?_
  exact calls_bind (calls_perform trivial) fun now => calls_bind (calls_lift _) fun candidates =>
    calls_evictCandidates _ now 0 candidates

theorem calls_storeFiles (key : Key) (content : Bytes) (digest etag objectName : String) :
    (storeFiles key content digest etag objectName).Calls Unasking :=
  calls_bind (calls_perform trivial) fun _ => calls_bind (calls_perform trivial) fun _ =>
    calls_bind (calls_perform trivial) fun _ => calls_bind (calls_perform trivial) fun _ =>
    calls_bind (calls_perform trivial) fun _ => calls_bind (calls_perform trivial) fun _ =>
    calls_bind (calls_perform trivial) fun _ => calls_bind (calls_perform trivial) fun _ => trivial

theorem calls_downloadAndStore (settings : Settings) (objectName sha256 : String) (key : Key)
    (remoteEtag : String) :
    (downloadAndStore settings objectName sha256 key remoteEtag).Calls Unasking := by
  refine calls_bind (calls_perform trivial) fun content => calls_bind (calls_lift _) fun digest =>
    calls_bind (calls_bind ?_ fun now => calls_evictLruIfNeeded settings 0 _) fun _ => trivial
  exact calls_withKeyLock trivial (fun _ => trivial) (calls_storeFiles key _ _ _ _)

end Calls

/-! ### The branches -/

section Branches

variable {t : Nat} {w w' : World} {τ : Trace CacheCalls Exc} {key : Key}

theorem performs_headOrNone {objectName : String} {out : Except Exc (Option String)}
    (h : (headOrNone objectName).Performs steady t w τ out w') :
    ∃ answer : Except Exc (Option String), τ = [⟨.headObject objectName, answer⟩] ∧
      Still t w w' ∧ out = .ok (match answer with | .ok head => head | .error _ => none) := by
  obtain ⟨head, done, rfl⟩ | ⟨e, τ₁, τ₂, w₁, raised, handled, rfl⟩ := performs_tryCatch h
  · exact ⟨.ok head, (performs_perform done).1, (still_call done fun _ _ _ h => h).1, rfl⟩
  · obtain ⟨rfl, rfl, run⟩ := performs_ret handled
    refine ⟨.error e, ?_, (still_drift run).before (still_call raised fun _ _ _ h => h).1, rfl⟩
    rw [(performs_perform raised).1]
    rfl

/-- Without its object an entry of a name is removed. -/
theorem performs_remoteGone {out : Except Exc (Option Path)}
    (h : (remoteGone "" key).Performs steady t w τ out w') :
    (w.Occupied (dataPath key) ∧ Loses t (Owns key) w w') ∨
      (¬ w.Occupied (dataPath key) ∧ Still t w w' ∧ ∀ e ∈ τ, Harmless e.op) := by
  obtain ⟨_, τ₁, τ₂, w₁, kept, rest, rfl⟩ := performs_step h fun τ e s' raised => by
    exact nomatch (performs_ret raised).2.1
  obtain ⟨rfl, ⟨⟩, run⟩ := performs_ret kept
  have first : Still t w w₁ := still_drift run
  obtain ⟨found, τ₃, τ₄, w₂, asked, rest, rfl⟩ := performs_step rest fun τ e s' raised => by
    obtain ⟨_, _, impossible, _⟩ := performs_pathExists raised
    exact nomatch impossible
  obtain ⟨second, _, ⟨⟩, there⟩ := performs_pathExists asked
  rw [first.occupied] at there
  have still := second.before first
  cases found with
  | true =>
      left
      obtain ⟨_, τ₅, τ₆, w₃, removed, ends, rfl⟩ :=
        performs_step rest fun _ _ _ raised => nomatch (performs_removeEntry raised).1
      obtain ⟨-, -, run⟩ := performs_ret ends
      exact ⟨there.mp rfl, ((performs_removeEntry removed).2.after (still_drift run)).before still⟩
  | false =>
      right
      obtain ⟨rfl, -, run⟩ := performs_ret rest
      refine ⟨mt there.mpr Bool.false_ne_true, (still_drift run).before still, ?_⟩
      rw [(performs_perform asked).1]
      simp [Harmless]

/-- The meta file records the ETag. -/
def HasEtag (w : World) (key : Key) (etag : String) : Prop :=
  ∃ document, w.files (metaPath key) = some (.json document) ∧
    document.get "etag" .none = .ok (.str etag)

theorem sameEtag_of_get {document : Value} {etag : String}
    (h : document.get "etag" .none = .ok (.str etag)) : sameEtag document etag = .ok true := by
  match document with
  | .dict [] => exact nomatch h
  | .dict (field :: fields) =>
      have truthy : (Value.dict (field :: fields)).truthy = true := rfl
      rw [sameEtag, if_pos truthy, h]
      exact congrArg _ (beq_self_eq_true etag)

/-- An entry with the remote ETag stays. -/
theorem performs_isCurrent {etag : String} {out : Except Exc Bool}
    (there : (w.files (dataPath key)).isSome) (has : HasEtag w key etag)
    (h : (isCurrent key etag).Performs steady t w τ out w') :
    (∀ e ∈ τ, Harmless e.op) ∧ ∀ b, out = .ok b → b = true := by
  obtain ⟨document, stored, same⟩ := has
  obtain ⟨found, τ₁, τ₂, w₁, asked, rest, rfl⟩ := performs_step h fun τ e s' raised => by
    obtain ⟨_, _, impossible, _⟩ := performs_pathExists raised
    exact nomatch impossible
  obtain ⟨still, _, ⟨⟩, occupied⟩ := performs_pathExists asked
  have harmless : ∀ e ∈ τ₁, Harmless e.op := Program.yields_calls asked.1 (Program.calls_perform trivial)
  obtain rfl := occupied.mpr (.inl there)
  have read : ∀ {τ out w'}, (readMeta (metaPath key)).Performs steady t w₁ τ out w' →
      out = .ok document := by
    intro τ out w' h
    have load : ∀ {τ out w'}, (call (.loadJson (metaPath key))).Performs steady t w₁ τ out w' →
        out = .ok document := fun h =>
      (performs_loadJson h).2.1 document (by rw [still.files]; exact stored)
    obtain ⟨v, done, rfl⟩ | ⟨e, _, _, _, raised, -, -⟩ := performs_tryCatch h
    · exact load done
    · exact nomatch load raised
  obtain ⟨_, τ₃, τ₄, w₂, loaded, last, rfl⟩ :=
    performs_step rest fun _ _ _ raised => nomatch read raised
  cases read loaded
  have harmless' : ∀ e ∈ τ₃, Harmless e.op :=
    Program.yields_calls loaded.1 (calls_readMeta trivial)
  rw [sameEtag_of_get same, Program.lift_ok_bind, if_pos rfl] at last
  refine ⟨?_, ?_⟩
  · have harmless'' : ∀ e ∈ τ₄, Harmless e.op :=
      Program.yields_calls last.1 (Program.calls_bind (Program.calls_perform trivial) fun _ =>
        Program.calls_bind (Program.calls_perform trivial) fun _ =>
        Program.calls_bind (calls_updateMeta _ _) fun _ => trivial)
    exact List.forall_mem_append.mpr ⟨harmless, List.forall_mem_append.mpr ⟨harmless', harmless''⟩⟩
  · rintro b rfl
    obtain ⟨_, _, impossible⟩ | ⟨validated, _, _, w₃, -, last, -⟩ := performs_bind last
    · exact nomatch impossible
    obtain ⟨_, _, impossible⟩ | ⟨accessed, _, _, w₄, -, last, -⟩ := performs_bind last
    · exact nomatch impossible
    obtain ⟨_, _, impossible⟩ | ⟨_, _, _, w₅, -, last, -⟩ := performs_bind last
    · exact nomatch impossible
    exact (Except.ok.inj (performs_ret last).2.1)

end Branches

/-! ### The whole call -/

section Whole

variable {t : Nat} {w w' : World} {τ : Trace CacheCalls Exc} {settings : Settings}
  {objectName : String}

/-- What follows the answer of the remote storage. -/
def afterHead (settings : Settings) (objectName : String) (key : Key) :
    Option String → Caching (Option Path)
  | none => remoteGone "" key
  | some remoteEtag => do
      let current ← isCurrent key remoteEtag
      if current then return some (dataPath key)
      else downloadAndStore settings objectName "" key remoteEtag

theorem revalidate_eq (key : Key) : revalidate settings objectName "" key =
    (do
      call .getStorage
      let head ← headOrNone objectName
      afterHead settings objectName key head) := by
  refine congrArg (_ >>= ·) (funext fun _ => congrArg (_ >>= ·) (funext fun head => ?_))
  cases head <;> rfl

theorem calls_afterHead (key : Key) (head : Option String) :
    (afterHead settings objectName key head).Calls Unasking := by
  cases head with
  | none =>
      refine Program.calls_bind trivial fun _ => Program.calls_ite
        (fun _ => Program.calls_mono (calls_hit key) Harmless.unasking) fun _ => ?_
      refine Program.calls_bind (Program.calls_perform trivial) fun _ =>
        Program.calls_ite (fun _ => ?_) fun _ => trivial
      exact Program.calls_bind (calls_removeEntry key (fun _ => trivial) fun _ => trivial) fun _ => trivial
  | some etag =>
      exact Program.calls_bind (calls_isCurrent key etag) fun _ =>
        Program.calls_ite (fun _ => trivial) fun _ => calls_downloadAndStore settings objectName ""
          key etag

/-- Either the storage is not asked and nothing is removed, or it is asked once. -/
theorem performs_byName {key : Key} {out : Except Exc (Option Path)}
    (h : (resolveLocked settings objectName "" key).Performs steady t w τ out w') :
    (∀ e ∈ τ, Harmless e.op) ∨
      ∃ (τ₁ : Trace CacheCalls Exc) (answer : Except Exc (Option String))
        (τ₂ : Trace CacheCalls Exc) (w₁ : World),
        τ = τ₁ ++ ⟨.headObject objectName, answer⟩ :: τ₂ ∧ (∀ e ∈ τ₁, Harmless e.op) ∧
        Still t w w₁ ∧ (afterHead settings objectName key
          (match answer with | .ok head => head | .error _ => none)).Performs steady t w₁ τ₂ out w' := by
  have trust : (isTrusted "" key).Calls Harmless := calls_isFresh key trivial trivial trivial
  have quiet : (isTrusted "" key).Calls Quiet := calls_isFresh key trivial trivial trivial
  obtain ⟨e, raised, -⟩ | ⟨trusted, τ₁, τ₂, w₁, asked, rest, rfl⟩ := performs_bind h
  · exact .inl (Program.yields_calls raised.1 trust)
  have before : ∀ e ∈ τ₁, Harmless e.op := Program.yields_calls asked.1 trust
  have first : Still t w w₁ := still_of_quiet quiet asked
  cases trusted with
  | true =>
      exact .inl (List.forall_mem_append.mpr ⟨before, Program.yields_calls rest.1 (calls_hit key)⟩)
  | false =>
      rw [if_neg Bool.false_ne_true, revalidate_eq] at rest
      have storage : (call .getStorage).Calls Harmless := Program.calls_perform trivial
      obtain ⟨e, raised, -⟩ | ⟨_, τ₃, τ₄, w₂, got, asks, rfl⟩ := performs_bind rest
      · exact .inl (List.forall_mem_append.mpr ⟨before, Program.yields_calls raised.1 storage⟩)
      have second : Still t w₁ w₂ := (still_call got fun _ _ _ h => h).1
      obtain ⟨head, τ₅, τ₆, w₃, headed, after, rfl⟩ := performs_step asks fun τ e s' raised => by
        obtain ⟨_, _, _, impossible⟩ := performs_headOrNone raised
        exact nomatch impossible
      obtain ⟨answer, rfl, third, ⟨⟩⟩ := performs_headOrNone headed
      refine .inr ⟨τ₁ ++ τ₃, answer, τ₆, w₃, ?_, ?_, third.before (second.before first), after⟩
      · rw [List.append_assoc]
        rfl
      · exact List.forall_mem_append.mpr ⟨before, Program.yields_calls got.1 storage⟩

/-- The storage reported no object, or an ETag that the entry does not have. -/
def Reported (objectName : String) (w : World) (τ : Trace CacheCalls Exc) : Prop :=
  ⟨.headObject objectName, .ok none⟩ ∈ τ ∨ ∃ etag,
    ⟨.headObject objectName, .ok (some etag)⟩ ∈ τ ∧ ¬ HasEtag w (cacheKey "" objectName) etag

/-- An entry is removed only because of what the storage reported, and an error of the storage
leaves its files as they are. -/
structure FailsSafely (objectName : String) (w : World) (τ : Trace CacheCalls Exc) (w' : World) :
    Prop where
  reported : (w.files (dataPath (cacheKey "" objectName))).isSome →
    ∀ path, Owns (cacheKey "" objectName) path → ⟨.unlink path, .ok ()⟩ ∈ τ →
      Reported objectName w τ
  unchanged : ∀ e, ⟨.headObject objectName, .error e⟩ ∈ τ →
    ∀ path, Owns (cacheKey "" objectName) path → w'.files path = w.files path

/-- The storage raises while there is an entry. -/
def FailsOnEntry (objectName : String) (w : World) (τ : Trace CacheCalls Exc) : Prop :=
  (∃ e, ⟨.headObject objectName, .error e⟩ ∈ τ) ∧ w.Occupied (dataPath (cacheKey "" objectName)) ∧
    ∃ path, Owns (cacheKey "" objectName) path ∧ (w.files path).isSome

theorem failsSafely_of_harmless (harmless : ∀ e ∈ τ, Harmless e.op) :
    FailsSafely objectName w τ w' ∧ ¬ FailsOnEntry objectName w τ := by
  refine ⟨⟨fun _ path _ removed => absurd (harmless _ removed) id,
    fun e raised => absurd (harmless _ raised) id⟩, ?_⟩
  rintro ⟨⟨e, raised⟩, -⟩
  exact harmless _ raised

/-- The one answer of the storage. -/
theorem answer_unique {τ₁ τ₂ : Trace CacheCalls Exc} {answer answer' : Except Exc (Option String)}
    (before : ∀ e ∈ τ₁, Harmless e.op) (after : ∀ e ∈ τ₂, Unasking e.op)
    (mem : ⟨.headObject objectName, answer'⟩ ∈ τ₁ ++ ⟨.headObject objectName, answer⟩ :: τ₂) :
    answer' = answer := by
  rw [List.mem_append, List.mem_cons] at mem
  rcases mem with mem | same | mem
  · exact absurd (before _ mem) id
  · cases same
    rfl
  · exact absurd (after _ mem) id

theorem failsSafely_locked {out : Except Exc (Option Path)}
    (h : (resolveLocked settings objectName "" (cacheKey "" objectName)).Performs steady t w τ out
      w') :
    FailsSafely objectName w τ w' ↔ ¬ FailsOnEntry objectName w τ := by
  rcases performs_byName h with harmless | ⟨τ₁, answer, τ₂, w₁, rfl, before, still, rest⟩
  · obtain ⟨safe, fine⟩ : FailsSafely objectName w τ w' ∧ ¬ FailsOnEntry objectName w τ :=
      failsSafely_of_harmless harmless
    exact iff_of_true safe fine
  have after : ∀ e ∈ τ₂, Unasking e.op := Program.yields_calls rest.1 (calls_afterHead _ _)
  have asked : (⟨.headObject objectName, answer⟩ : Effect.Event CacheCalls Exc) ∈
      τ₁ ++ ⟨.headObject objectName, answer⟩ :: τ₂ :=
    List.mem_append_right _ (List.mem_cons_self ..)
  match answer with
  | .ok none =>
      refine iff_of_true ⟨fun _ _ _ _ => .inl asked, fun e raised => ?_⟩ ?_
      · exact nomatch answer_unique before after raised
      · rintro ⟨⟨e, raised⟩, -⟩
        exact nomatch answer_unique before after raised
  | .ok (some etag) =>
      refine iff_of_true ⟨fun there path _ removed => .inr ⟨etag, asked, fun has => ?_⟩,
        fun e raised => ?_⟩ ?_
      · have later : ∀ e ∈ τ₂, Harmless e.op := by
          rw [HasEtag, ← still.files] at has
          rw [← still.files] at there
          obtain ⟨e, raised, -⟩ | ⟨current, τ₃, τ₄, w₂, checked, ends, rfl⟩ := performs_bind rest
          · exact (performs_isCurrent there has raised).1
          · obtain ⟨harmless, same⟩ := performs_isCurrent there has checked
            rw [same current rfl] at ends
            obtain ⟨rfl, -, -⟩ := performs_ret ends
            rw [List.append_nil]
            exact harmless
        rw [List.mem_append, List.mem_cons] at removed
        rcases removed with removed | same | removed
        · exact before _ removed
        · exact nomatch congrArg Event.op same
        · exact later _ removed
      · exact nomatch answer_unique before after raised
      · rintro ⟨⟨e, raised⟩, -⟩
        exact nomatch answer_unique before after raised
  | .error e =>
      have occupied := still.occupied (dataPath (cacheKey "" objectName))
      rcases performs_remoteGone rest with ⟨there, loses⟩ | ⟨absent, kept, harmless⟩
      · have lost := loses.before still
        constructor
        · rintro safe ⟨-, -, path, owns, file⟩
          rw [← safe.unchanged e asked path owns, lost.lost path owns] at file
          exact nomatch file
        · intro fine
          have empty : ∀ path, Owns (cacheKey "" objectName) path → w.files path = none := by
            intro path owns
            rw [← Option.not_isSome_iff_eq_none]
            exact fun file => fine ⟨⟨e, asked⟩, occupied.mp there, path, owns, file⟩
          refine ⟨fun file => ?_, fun _ _ path owns => ?_⟩
          · rw [empty _ (.inl rfl)] at file
            exact nomatch file
          · rw [empty path owns, lost.lost path owns]
      · rw [occupied] at absent
        refine iff_of_true ⟨fun file => absurd (.inl file) absent, fun _ _ path _ => ?_⟩ ?_
        · exact (kept.before still).kept path id
        · exact fun fails => absent fails.2.1

section Locked

variable {w₁ w₂ : World} {τ₁ : Trace CacheCalls Exc} (start : w₁.files = w.files)
  (mem : ∀ e, ¬ Harmless e.op → (e ∈ τ ↔ e ∈ τ₁))

include start mem

/-- What comes before and after the locked block does not matter. -/
theorem failsSafely_congr (ends : w₂.files = w'.files) :
    FailsSafely objectName w τ w' ↔ FailsSafely objectName w₁ τ₁ w₂ := by
  have asked : ∀ answer, (⟨.headObject objectName, answer⟩ : Effect.Event CacheCalls Exc) ∈ τ ↔
      ⟨.headObject objectName, answer⟩ ∈ τ₁ := fun _ => mem _ id
  have removed : ∀ path answer, (⟨.unlink path, answer⟩ : Effect.Event CacheCalls Exc) ∈ τ ↔
      ⟨.unlink path, answer⟩ ∈ τ₁ := fun _ _ => mem _ id
  constructor
  · rintro ⟨reported, unchanged⟩
    constructor
    · simpa only [Reported, HasEtag, asked, removed, start] using reported
    · simpa only [asked, start, ends] using unchanged
  · rintro ⟨reported, unchanged⟩
    constructor
    · simpa only [Reported, HasEtag, asked, removed, start] using reported
    · simpa only [asked, start, ends] using unchanged

theorem failsOnEntry_congr (dirs : w₁.dirs = w.dirs) :
    FailsOnEntry objectName w τ ↔ FailsOnEntry objectName w₁ τ₁ := by
  have asked : ∀ answer, (⟨.headObject objectName, answer⟩ : Effect.Event CacheCalls Exc) ∈ τ ↔
      ⟨.headObject objectName, answer⟩ ∈ τ₁ := fun _ => mem _ id
  simp only [FailsOnEntry, World.Occupied, World.IsDir, asked, start, dirs]

end Locked

/-- An error of the storage is told from a report exactly if there is no entry when it comes. -/
theorem failsSafely_iff {out : Except Exc (Option Path)}
    (h : (resolveOrDownload settings objectName "").Performs steady t w τ out w') :
    FailsSafely objectName w τ w' ↔ ¬ FailsOnEntry objectName w τ := by
  rw [resolveOrDownload] at h
  split at h
  · obtain ⟨_, τ₁, τ₂, w₁, rooted, rest, rfl⟩ :=
      performs_step h fun _ _ _ raised => nomatch (performs_ensureRoot raised).1
    obtain ⟨-, first⟩ := performs_ensureRoot rooted
    obtain rfl := (performs_perform rooted).1
    obtain ⟨outcome, τ₃, w₂, w₃, w₄, w₅, w₆, r, rfl, second, -, third, block, fourth, released,
      last, -⟩ := performs_withKeyLock rest
    have begun : Still t w w₂ := second.before first
    have start : w₃.files = w.files := (show w₃.files = w₂.files from third.files).trans begun.files
    have dirs : w₃.dirs = w.dirs := (show w₃.dirs = w₂.dirs from third.dirs).trans begun.dirs
    have ends : w₄.files = w'.files := by
      rw [last.files, ← fourth.files]
      obtain ⟨_, _, rfl⟩ | ⟨_, _, rfl⟩ := released
      · rfl
      · rfl
    rw [failsSafely_congr start ?_ ends, failsOnEntry_congr start ?_ dirs]
    · exact failsSafely_locked block
    all_goals
      intro e harmful
      simp only [List.mem_append, List.mem_cons, List.not_mem_nil, or_false]
      refine ⟨?_, fun mem => .inr (.inl (.inr mem))⟩
      rintro (rfl | (rfl | mem) | rfl)
      · exact absurd trivial harmful
      · exact absurd trivial harmful
      · exact mem
      · exact absurd trivial harmful
  · obtain ⟨safe, fine⟩ : FailsSafely objectName w τ w' ∧ ¬ FailsOnEntry objectName w τ :=
      failsSafely_of_harmless (Program.yields_calls h.1 (Program.calls_perform trivial))
    exact iff_of_true safe fine

end Whole

/-- An entry of the object `a` that was validated long ago. -/
def staleEntry : World :=
  { World.start 100 with
    files := fun path => [(dataPath "name:a", File.data [1]),
      (metaPath "name:a", .json (.dict [("etag", .str "x"), ("last_validated_at", .float 0)]))].lookup
        path }

def besideStale : Surroundings := ⟨[dataPath "name:a", metaPath "name:a"], fun _ => [], "x"⟩

theorem covered_staleEntry : Covered besideStale.walk staleEntry := by
  rintro path - (there | ⟨_, impossible, -⟩)
  · obtain ⟨file, there⟩ := Option.isSome_iff_exists.mp there
    obtain ⟨before, after, split, -⟩ := List.lookup_eq_some_iff.mp there
    have mem : (path, file) ∈ [(dataPath "name:a", File.data [1]),
        (metaPath "name:a", .json (.dict [("etag", .str "x"), ("last_validated_at", .float 0)]))] :=
      split ▸ List.mem_append_right _ (List.mem_cons_self ..)
    exact List.mem_map_of_mem (f := Prod.fst) mem
  · exact nomatch impossible

/-- Everything is cached that is resolved. -/
def caching : Settings := ⟨true, 100, 60, fun _ => ""⟩

def raisesHead : Effect.Event CacheCalls Exc → Bool
  | ⟨.headObject "a", .error _⟩ => true
  | _ => false

/-- The entry is removed when the storage cannot be reached. -/
theorem head_error_removes : ∃ τ out w',
    (resolveOrDownload caching "a" "").Performs steady 0 staleEntry τ out w' ∧
      ¬ FailsSafely "a" staleEntry τ w' := by
  let timeout : Except Exc (Option String) := .error ⟨.other, "timed out"⟩
  obtain ⟨⟨out, w'⟩, ends⟩ : ∃ end_, (resolveOrDownload caching "a" "").outcome
      (steadily besideStale timeout 0) staleEntry = some end_ :=
    Option.isSome_iff_exists.mp (by decide +kernel)
  refine ⟨_, out, w', performs_transcript steadily_follows covered_staleEntry ends, fun safe => ?_⟩
  obtain ⟨event, mem, raises⟩ : ∃ event ∈ (resolveOrDownload caching "a" "").transcript
      (steadily besideStale timeout 0) staleEntry, raisesHead event = true :=
    List.any_eq_true.mp (by decide +kernel)
  obtain ⟨e, rfl⟩ : ∃ e, event = ⟨.headObject "a", .error e⟩ := by
    unfold raisesHead at raises
    split at raises
    · exact ⟨_, rfl⟩
    · exact nomatch raises
  have same := safe.unchanged e mem (dataPath "name:a") (.inl rfl)
  have gone : ((resolveOrDownload caching "a" "").outcome (steadily besideStale timeout 0)
      staleEntry).map (fun end_ => (end_.2.files (dataPath "name:a")).isSome) = some false := by
    decide +kernel
  rw [ends, Option.map_some, Option.some.injEq, same] at gone
  exact absurd gone (by decide +kernel)

/-- The entry is removed, as it should be, when the storage reports that there is no object. -/
theorem failsSafely_absent : ∃ τ w', FailsSafely "a" staleEntry τ w' := by
  obtain ⟨⟨out, w'⟩, ends⟩ : ∃ end_, (resolveOrDownload caching "a" "").outcome
      (steadily besideStale (.ok none) 0) staleEntry = some end_ :=
    Option.isSome_iff_exists.mp (by decide +kernel)
  have performs := performs_transcript steadily_follows covered_staleEntry ends
  refine ⟨_, w', (failsSafely_iff performs).mpr ?_⟩
  rintro ⟨⟨e, raised⟩, -⟩
  have none_raised : ((resolveOrDownload caching "a" "").transcript
      (steadily besideStale (.ok none) 0) staleEntry).any raisesHead = false := by decide +kernel
  exact absurd rfl (List.any_eq_false.mp none_raised _ raised)

end AcojWorker.FileCache
