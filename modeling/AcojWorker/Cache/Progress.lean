import AcojWorker.Effect.Progress
import AcojWorker.Cache.Replay
import AcojWorker.Cache.Revalidation
import Mathlib.Data.String.Basic

/-!
# Requests to the cache come to their end

A request waits for the lock of its own key only, and holds no other lock when it asks for it:
an eviction passes over the entries whose locks are taken, and the store that a download leads to
takes the lock of the request again. Requests therefore never wait for each other in a circle.
The same reading of the locks shows that the files of an entry are changed under its lock.
-/

namespace AcojWorker.FileCache

open Python Effect Discipline

/-! ### The order of the locks -/

/-- What a thread holds is counted. -/
def HoldsLocks (held : Key → Nat) (t : Nat) (w : World) : Prop := ∀ key, w.depth t key = held key

/-- A lock that is taken counts at least once, and almost all temporary files are free. -/
structure Counted (w : World) : Prop where
  locks : ∀ key owner n, w.locks key = some (owner, n) → 0 < n
  temps : ∃ bound, ∀ temp, bound ≤ temp → w.temps temp = none

/-- A thread waits for a lock while it holds no other one, and changes files under the lock of
their key. -/
def Ordered (t : Nat) : CacheOp → World → Prop
  | .acquire key, w => ∀ key', 0 < w.depth t key' → key' = key
  | .replace _ path, w => ∃ key, 0 < w.depth t key ∧ Owns key path
  | .unlink path, w => ∃ key, 0 < w.depth t key ∧ Owns key path
  | _, _ => True

def lockOrder : Discipline disk where
  inv := Counted
  rely t w w' := ∀ key, w'.depth t key = w.depth t key
  idle := HoldsLocks fun _ => 0
  allowed _ _ _ := True
  good := Ordered
  rely_refl _ _ _ := rfl
  rely_trans first second key := (second key).trans (first key)
  idle_stable idle rely key := (rely key).trans (idle key)
  drift_ok := by
    rintro w _ counted ⟨clock, _, rfl⟩
    exact ⟨⟨counted.locks, counted.temps⟩, fun _ _ => rfl⟩

/-- Calls that leave the locks alone, made by a thread that holds the locks `held`. -/
def Modest (held : Key → Nat) : CacheOp → Prop
  | .acquire _ | .tryAcquire _ _ | .release _ _ => False
  | .replace _ path | .unlink path => ∃ key, 0 < held key ∧ Owns key path
  | _ => True

section Calls

variable {held : Key → Nat} {t : Nat} {w w' : World} {key : Key}

theorem counted_setTemp (counted : Counted w) (temp : Nat) (x : Option (Nat × Option File)) :
    Counted (w.setTemp temp x) := by
  obtain ⟨bound, free⟩ := counted.temps
  refine ⟨counted.locks, max bound (temp + 1), fun temp' high => ?_⟩
  have other : temp' ≠ temp := by omega
  exact (Function.update_of_ne other _ _).trans (free temp' (by omega))

theorem exec_modest {op : CacheOp} {r : Except Exc op.Answer} (modest : Modest held op)
    (counted : Counted w) (h : exec t op w r w') : w'.locks = w.locks ∧ Counted w' := by
  have same : w' = w → w'.locks = w.locks ∧ Counted w' := by
    rintro rfl
    exact ⟨rfl, counted⟩
  cases op with
  | acquire key => exact modest.elim
  | tryAcquire key evicting => exact modest.elim
  | release key outcome => exact modest.elim
  | ensureRoot => exact same h
  | rootExists => exact same h
  | pathExists path => exact same h.1
  | loadJson path => exact same h.1
  | metaFiles => exact same h.1
  | now => exact same h.2
  | evictionTime entries since =>
      obtain ⟨-, rfl⟩ := h
      exact ⟨rfl, counted.locks, counted.temps⟩
  | getStorage => exact same h
  | headObject objectName => exact same h
  | download objectName =>
      obtain ⟨e, -, rfl⟩ | ⟨content, -, rfl⟩ := h
      · exact ⟨rfl, counted⟩
      · exact ⟨rfl, counted.locks, counted.temps⟩
  | downloadDirect objectName => exact same h
  | mkdirParent path =>
      obtain rfl | rfl := h
      · exact ⟨rfl, counted⟩
      · exact ⟨rfl, counted.locks, counted.temps⟩
  | tempSibling path =>
      obtain ⟨temp, -, -, rfl⟩ := h
      exact ⟨rfl, counted_setTemp counted temp _⟩
  | writeTemp temp file =>
      obtain ⟨e, left, -, rfl⟩ | ⟨-, rfl⟩ := h
      · exact ⟨rfl, counted_setTemp counted temp _⟩
      · exact ⟨rfl, counted_setTemp counted temp _⟩
  | replace temp path =>
      obtain ⟨e, -, rfl⟩ | ⟨owner, file, -, -, rfl⟩ := h
      · exact ⟨rfl, counted⟩
      · have kept := counted_setTemp counted temp none
        exact ⟨rfl, kept.locks, kept.temps⟩
  | unlinkTemp temp =>
      obtain ⟨e, -, rfl⟩ | ⟨-, rfl⟩ := h
      · exact ⟨rfl, counted⟩
      · exact ⟨rfl, counted_setTemp counted temp _⟩
  | unlink path =>
      obtain ⟨e, -, rfl⟩ | ⟨-, rfl⟩ := h
      · exact ⟨rfl, counted⟩
      · exact ⟨rfl, counted.locks, counted.temps⟩

theorem counted_lock (counted : Counted w) : Counted (w.lock t key) := by
  refine ⟨fun key' owner n taken => ?_, counted.temps⟩
  by_cases same : key' = key
  · subst same
    simp only [World.lock, Function.update_self, Option.some.injEq, Prod.mk.injEq] at taken
    omega
  · simp only [World.lock, Function.update_of_ne same] at taken
    exact counted.locks key' owner n taken

theorem counted_release (counted : Counted w) (outcome : Except Exc (Option Path)) :
    Counted (w.release t key outcome) := by
  refine ⟨fun key' owner n taken => ?_, counted.temps⟩
  by_cases same : key' = key
  · subst same
    simp only [World.release, Function.update_self] at taken
    split at taken
    · cases taken
    · simp only [Option.some.injEq, Prod.mk.injEq] at taken
      omega
  · simp only [World.release, Function.update_of_ne same] at taken
    exact counted.locks key' owner n taken

/-- A call is answered, unless it waits for a lock that another thread holds. -/
theorem exec_answers (counted : Counted w) (op : CacheOp)
    (free : ∀ key, op = .acquire key → ∀ u, 0 < w.depth u key → u = t) :
    ∃ r w', exec t op w r w' := by
  cases op with
  | acquire key =>
      refine ⟨.ok (), _, ?_, rfl, rfl⟩
      rw [World.free]
      cases taken : w.locks key with
      | none => rfl
      | some lock =>
          have depth : w.depth lock.1 key = lock.2 := by simp [World.depth, timesHeld, taken]
          have positive := counted.locks key lock.1 lock.2 taken
          simpa using free key rfl lock.1 (by omega)
  | tryAcquire key evicting =>
      by_cases here : w.free t key
      · exact ⟨.ok true, _, .inl ⟨here, rfl, rfl⟩⟩
      · exact ⟨.ok false, w, .inr ⟨here, rfl, rfl⟩⟩
  | release key outcome =>
      by_cases held : 0 < w.depth t key
      · exact ⟨.ok (), _, .inl ⟨held, rfl, rfl⟩⟩
      · exact ⟨.error _, w, .inr ⟨by omega, rfl, rfl⟩⟩
  | ensureRoot => exact ⟨.ok (), w, rfl⟩
  | rootExists => exact ⟨.ok true, w, rfl⟩
  | pathExists path => exact ⟨.error ⟨.osError, ""⟩, w, rfl, by simp⟩
  | loadJson path => exact ⟨.error ⟨.osError, ""⟩, w, rfl, by simp⟩
  | metaFiles => exact ⟨.error ⟨.osError, ""⟩, w, rfl, by simp⟩
  | now => exact ⟨_, w, rfl, rfl⟩
  | evictionTime entries since => exact ⟨_, _, rfl, rfl⟩
  | getStorage => exact ⟨.ok (), w, rfl⟩
  | headObject objectName => exact ⟨.ok none, w, rfl⟩
  | download objectName => exact ⟨.error ⟨.osError, ""⟩, w, .inl ⟨_, rfl, rfl⟩⟩
  | downloadDirect objectName => exact ⟨.ok none, w, rfl⟩
  | mkdirParent path => exact ⟨.ok (), w, .inl rfl⟩
  | tempSibling path =>
      obtain ⟨bound, free⟩ := counted.temps
      exact ⟨.ok bound, _, bound, free bound le_rfl, rfl, rfl⟩
  | writeTemp temp file => exact ⟨.ok (), _, .inr ⟨rfl, rfl⟩⟩
  | replace temp path => exact ⟨.error ⟨.osError, ""⟩, w, .inl ⟨_, rfl, rfl⟩⟩
  | unlinkTemp temp => exact ⟨.ok (), _, .inr ⟨rfl, rfl⟩⟩
  | unlink path => exact ⟨.ok (), _, .inr ⟨rfl, rfl⟩⟩

end Calls

/-! ### Programs that keep their locks -/

/-- The program asks for locks in order, and leaves its thread with the locks it came with. -/
def Balanced {α : Type} (held : Key → Nat) (p : Caching α) : Prop :=
  ∀ t, lockOrder.Triple t (HoldsLocks held t) p fun _ => HoldsLocks held t

section Rules

variable {α β : Type} {held : Key → Nat} {key : Key}

theorem holdsLocks_stable (held : Key → Nat) (t : Nat) : lockOrder.Stable t (HoldsLocks held t) :=
  fun _ _ holds rely key => (rely key).trans (holds key)

theorem balanced_calls {p : Caching α} (made : p.Calls (Modest held)) : Balanced held p := by
  intro t
  refine triple_calls made (holdsLocks_stable held t) (fun op w modest counted holds _ => ?_) ?_
  · cases op with
    | acquire key => exact modest.elim
    | replace temp path =>
        obtain ⟨key, positive, owns⟩ := modest
        exact ⟨key, by rw [holds]; exact positive, owns⟩
    | unlink path =>
        obtain ⟨key, positive, owns⟩ := modest
        exact ⟨key, by rw [holds]; exact positive, owns⟩
    | _ => exact trivial
  · intro op w r w' modest counted holds _ h
    obtain ⟨locks, counted'⟩ := exec_modest modest counted h
    have same : ∀ u key, w'.depth u key = w.depth u key := by
      intro u key
      rw [World.depth, World.depth, locks]
    exact ⟨⟨counted', fun u _ => same u⟩, fun key => (same t key).trans (holds key)⟩

theorem balanced_ret (a : α) : Balanced held (.ret a) := fun _ => triple_ret fun _ _ h => h

theorem balanced_raise (e : Exc) : Balanced held (.raise e : Caching α) :=
  fun _ => triple_raise fun _ _ h => h

theorem balanced_bind {p : Caching β} {f : β → Caching α} (hp : Balanced held p)
    (hf : ∀ b, Balanced held (f b)) : Balanced held (p >>= f) := by
  refine fun t => triple_bind (R := fun _ => HoldsLocks held t) (triple_post (hp t) ?_) fun b => hf b t
  rintro (e | b) w _ h
  · exact h
  · exact h

theorem balanced_ite {c : Prop} [Decidable c] {p q : Caching α} (hp : c → Balanced held p)
    (hq : ¬ c → Balanced held q) : Balanced held (if c then p else q) :=
  fun t => triple_ite (fun hc => hp hc t) fun hc => hq hc t

theorem balanced_lift (x : Except Exc α) : Balanced held (liftM x) :=
  fun _ => triple_lift (fun _ _ _ _ h => h) fun _ _ _ _ h => h

theorem balanced_tryCatch {p : Caching α} {handler : Exc → Caching α} (hp : Balanced held p)
    (hh : ∀ e, Balanced held (handler e)) : Balanced held (p.tryCatch handler) := by
  refine fun t => triple_tryCatch (E := fun _ => HoldsLocks held t) (triple_post (hp t) ?_)
    fun e => hh e t
  rintro (e | a) w _ h
  · exact h
  · exact h

theorem balanced_foldlM {γ : Type} {f : α → γ → Caching α} (hf : ∀ a x, Balanced held (f a x))
    (xs : List γ) (a : α) : Balanced held (xs.foldlM f a) := by
  induction xs generalizing a with
  | nil => exact balanced_ret a
  | cons x xs ih =>
      rw [List.foldlM_cons]
      exact balanced_bind (hf a x) ih

/-- A thread that has taken one more lock. -/
def oneMore (held : Key → Nat) (key : Key) : Key → Nat :=
  Function.update held key (held key + 1)

theorem oneMore_self (held : Key → Nat) (key : Key) : oneMore held key key = held key + 1 :=
  Function.update_self ..

theorem holdsLocks_lock {t : Nat} {w : World} (holds : HoldsLocks held t w) :
    HoldsLocks (oneMore held key) t (w.lock t key) := by
  intro k
  rw [depth_lock, oneMore, holds key]
  by_cases same : k = key
  · rw [if_pos same, same, Function.update_self]
  · rw [if_neg same, holds k, Function.update_of_ne same]

/-- The end of a block gives back the lock that was taken for it. -/
theorem triple_leaving_balanced {path : α → Option Path} {block : Caching α}
    (hblock : Balanced (oneMore held key) block) (t : Nat) :
    lockOrder.Triple t (HoldsLocks (oneMore held key) t) (leaving key path block)
      fun _ => HoldsLocks held t := by
  refine triple_bind (R := fun _ => HoldsLocks (oneMore held key) t) (triple_attempt (hblock t)) ?_
  intro outcome
  refine triple_bind (R := fun _ => HoldsLocks held t) ?_ fun _ => balanced_lift outcome t
  refine triple_perform (holdsLocks_stable _ t) (fun _ _ _ _ => trivial) ?_
  intro w r w' counted holds _ h
  have depth : w.depth t key = held key + 1 := (holds key).trans (oneMore_self held key)
  rcases h with ⟨positive, rfl, rfl⟩ | ⟨zero, -, -⟩
  · refine ⟨⟨counted_release counted _, fun u other => depth_release_other positive _ other⟩, ?_⟩
    intro k
    rw [depth_release positive, depth]
    by_cases same : k = key
    · rw [if_pos same, same, Nat.add_sub_cancel]
    · rw [if_neg same, holds k, oneMore, Function.update_of_ne same]
  · omega

theorem balanced_withKeyLock {path : α → Option Path} {block : Caching α}
    (alone : ∀ key', 0 < held key' → key' = key) (hblock : Balanced (oneMore held key) block) :
    Balanced held (withKeyLock key path block) := by
  intro t
  refine triple_bind (R := fun _ => HoldsLocks (oneMore held key) t) ?_ fun _ =>
    triple_leaving_balanced hblock t
  refine triple_perform (holdsLocks_stable held t) (fun w _ holds _ key' positive => ?_) ?_
  · exact alone key' (by rw [← holds key']; exact positive)
  · rintro w r w' counted holds _ ⟨free, rfl, rfl⟩
    exact ⟨⟨counted_lock counted, fun u other => depth_lock_other free other⟩, holdsLocks_lock holds⟩

theorem balanced_tryKeyLock {evicting : Option ℚ} {skipped : α} {block : Caching α}
    (hblock : Balanced (oneMore held key) block) :
    Balanced held (tryKeyLock key evicting skipped block) := by
  intro t
  refine triple_bind
    (R := fun (acquired : Bool) => HoldsLocks (if acquired then oneMore held key else held) t) ?_ ?_
  · refine triple_perform (holdsLocks_stable held t) (fun _ _ _ _ => trivial) ?_
    rintro w r w' counted holds _ (⟨free, rfl, rfl⟩ | ⟨-, rfl, rfl⟩)
    · exact ⟨⟨counted_lock counted, fun u other => depth_lock_other free other⟩, holdsLocks_lock holds⟩
    · exact ⟨⟨counted, fun _ _ _ => rfl⟩, holds⟩
  · intro acquired
    cases acquired with
    | false => exact triple_ret fun _ _ h => h
    | true => exact triple_leaving_balanced hblock t

end Rules

/-! ### The programs of the cache -/

section Programs

variable {held : Key → Nat} {key : Key}

section Entry

variable (mine : 0 < held key)

include mine

theorem modest_unlink {path : Path} (owns : Owns key path) : (unlink path).Calls (Modest held) :=
  calls_unlink trivial ⟨key, mine, owns⟩

theorem modest_removeEntry : (removeEntry key).Calls (Modest held) :=
  Program.calls_bind (modest_unlink mine (.inl rfl)) fun _ => modest_unlink mine (.inr rfl)

theorem modest_writeMeta (document : Value) :
    (writeMeta (metaPath key) document).Calls (Modest held) := by
  refine Program.calls_bind (Program.calls_perform trivial) fun tmp => ?_
  refine Program.calls_tryCatch ?_ fun e => ?_
  · exact Program.calls_bind (Program.calls_perform trivial) fun _ =>
      Program.calls_bind (Program.calls_perform trivial) fun _ =>
        Program.calls_perform ⟨key, mine, .inr rfl⟩
  · refine Program.calls_ite (fun _ => ?_) fun _ => trivial
    exact Program.calls_tryCatch (Program.calls_perform trivial) fun _ =>
      Program.calls_ite (fun _ => trivial) fun _ => trivial

theorem modest_updateMeta (updates : List (String × Value)) :
    (updateMeta (metaPath key) updates).Calls (Modest held) := by
  refine Program.calls_bind (calls_readMeta trivial) fun document => ?_
  split
  · exact trivial
  · exact Program.calls_bind (Program.calls_lift _) fun document => modest_writeMeta mine document

theorem modest_hit : (hit key).Calls (Modest held) := by
  refine Program.calls_bind ?_ fun _ => trivial
  refine Program.calls_bind (calls_readMeta trivial) fun document => ?_
  split
  · exact trivial
  · refine Program.calls_bind (Program.calls_perform trivial) fun now =>
      Program.calls_bind (Program.calls_lift _) fun _ =>
      Program.calls_bind (Program.calls_lift _) fun _ =>
      Program.calls_ite (fun _ => trivial) fun _ => ?_
    exact Program.calls_bind (Program.calls_lift _) fun document => modest_writeMeta mine document

theorem modest_remoteGone (sha256 : String) : (remoteGone sha256 key).Calls (Modest held) := by
  have kept : (isKept sha256 key).Calls (Modest held) :=
    Program.calls_ite (fun _ => Program.calls_perform trivial) fun _ => trivial
  refine Program.calls_bind kept fun _ => Program.calls_ite (fun _ => modest_hit mine) fun _ => ?_
  refine Program.calls_bind (Program.calls_perform trivial) fun found =>
    Program.calls_ite (fun _ => ?_) fun _ => trivial
  exact Program.calls_bind (modest_removeEntry mine) fun _ => trivial

theorem modest_isCurrent (remoteEtag : String) :
    (isCurrent key remoteEtag).Calls (Modest held) := by
  refine Program.calls_bind (Program.calls_perform trivial) fun found =>
    Program.calls_ite (fun _ => ?_) fun _ => trivial
  refine Program.calls_bind (calls_readMeta trivial) fun document =>
    Program.calls_bind (Program.calls_lift _) fun same => Program.calls_ite (fun _ => ?_) fun _ => ?_
  · exact Program.calls_bind (Program.calls_perform trivial) fun validated =>
      Program.calls_bind (Program.calls_perform trivial) fun accessed =>
      Program.calls_bind (modest_updateMeta mine _) fun _ => trivial
  · exact Program.calls_bind (modest_removeEntry mine) fun _ => trivial

theorem modest_storeFiles (content : Bytes) (sha256 etag objectName : String) :
    (storeFiles key content sha256 etag objectName).Calls (Modest held) :=
  Program.calls_bind (Program.calls_perform trivial) fun _ =>
    Program.calls_bind (Program.calls_perform trivial) fun _ =>
    Program.calls_bind (Program.calls_perform trivial) fun _ =>
    Program.calls_bind (Program.calls_perform trivial) fun _ =>
    Program.calls_bind (Program.calls_perform trivial) fun _ =>
    Program.calls_bind (Program.calls_perform ⟨key, mine, .inl rfl⟩) fun _ =>
    Program.calls_bind (Program.calls_perform trivial) fun _ =>
    Program.calls_bind (Program.calls_perform ⟨key, mine, .inr rfl⟩) fun _ => trivial

end Entry

theorem oneMore_pos (held : Key → Nat) (key : Key) : 0 < oneMore held key key := by
  rw [oneMore_self]
  exact Nat.succ_pos _

theorem balanced_evictEntry (now freed : ℚ) (entry : Entry) :
    Balanced held (evictEntry now freed entry) := by
  refine balanced_tryKeyLock ?_
  refine balanced_bind (balanced_calls (modest_removeEntry (oneMore_pos held entry.key))) fun _ => ?_
  exact balanced_bind (balanced_lift _) fun size => balanced_ret _

theorem balanced_evictCandidates (needBytes : Int) (now freed : ℚ) (candidates : List Entry) :
    Balanced held (evictCandidates needBytes now freed candidates) := by
  induction candidates generalizing freed with
  | nil => exact balanced_ret ()
  | cons entry candidates ih =>
      refine balanced_ite (fun _ => balanced_ret ()) fun _ => ?_
      exact balanced_bind (balanced_evictEntry now freed entry) fun freed => ih freed

theorem balanced_evictLru (needBytes : Int) (since : Option ℚ) :
    Balanced held (evictLru needBytes since) := by
  refine balanced_bind (balanced_calls (calls_collectStats trivial trivial fun _ => trivial)) ?_
  intro entries
  refine balanced_bind (balanced_calls (Program.calls_perform trivial)) fun now => ?_
  exact balanced_bind (balanced_lift _) fun candidates => balanced_evictCandidates _ _ _ _

theorem balanced_evictLruIfNeeded (settings : Settings) (newSize : Int) (since : Option ℚ) :
    Balanced held (evictLruIfNeeded settings newSize since) := by
  refine balanced_bind
    (balanced_calls (calls_calculateTotalSize trivial trivial fun _ => trivial)) fun total => ?_
  exact balanced_ite (fun _ => balanced_ret ()) fun _ => balanced_evictLru _ since

section Request

variable (settings : Settings) (alone : ∀ key', 0 < held key' → key' = key)

include alone

theorem balanced_store (content : Bytes) (sha256 etag objectName : String) :
    Balanced held (store settings key content sha256 etag objectName) := by
  refine balanced_bind (balanced_withKeyLock alone ?_) fun now =>
    balanced_evictLruIfNeeded settings 0 (some now)
  exact balanced_calls (modest_storeFiles (oneMore_pos held key) content sha256 etag objectName)

theorem balanced_resolveLocked (mine : 0 < held key) (objectName sha256 : String) :
    Balanced held (resolveLocked settings objectName sha256 key) := by
  have trusts : (isTrusted sha256 key).Calls (Modest held) :=
    Program.calls_ite (fun _ => Program.calls_perform trivial)
      fun _ => calls_isFresh key trivial trivial trivial
  refine balanced_bind (balanced_calls trusts) fun trusted => ?_
  refine balanced_ite (fun _ => balanced_calls (modest_hit mine)) fun _ => ?_
  refine balanced_bind (balanced_calls (Program.calls_perform trivial)) fun _ => ?_
  have heads : (headOrNone objectName).Calls (Modest held) :=
    Program.calls_tryCatch (Program.calls_perform trivial) fun _ => trivial
  refine balanced_bind (balanced_calls heads) fun head => ?_
  cases head with
  | none => exact balanced_calls (modest_remoteGone mine sha256)
  | some remoteEtag =>
      refine balanced_bind (balanced_calls (modest_isCurrent mine remoteEtag)) fun current => ?_
      refine balanced_ite (fun _ => balanced_ret _) fun _ => ?_
      refine balanced_bind (balanced_calls (Program.calls_perform trivial)) fun content => ?_
      refine balanced_bind (balanced_lift _) fun digest => ?_
      exact balanced_bind (balanced_store settings alone content digest remoteEtag objectName)
        fun _ => balanced_ret _

end Request

theorem balanced_purgeFile (settings : Settings) (now : ℚ) (path : Path) :
    Balanced held (purgeFile settings now path) := by
  refine balanced_tryCatch ?_ fun _ => balanced_ret ()
  refine balanced_bind (balanced_calls (Program.calls_perform trivial)) fun document => ?_
  refine balanced_bind (balanced_lift _) fun _ => balanced_bind (balanced_lift _) fun accessed => ?_
  refine balanced_ite (fun _ => ?_) fun _ => balanced_ret ()
  split
  · next key _ =>
    refine balanced_ite (fun _ => balanced_tryKeyLock ?_) fun _ => balanced_ret ()
    exact balanced_calls (modest_removeEntry (oneMore_pos held key))
  · exact balanced_ret ()

theorem balanced_purgeExpired (settings : Settings) : Balanced held (purgeExpired settings) := by
  refine balanced_ite (fun _ => ?_) fun _ => balanced_ret ()
  refine balanced_bind (balanced_calls (Program.calls_perform trivial)) fun _ => ?_
  refine balanced_bind (balanced_calls (Program.calls_perform trivial)) fun found => ?_
  refine balanced_ite (fun _ => ?_) fun _ => balanced_ret ()
  refine balanced_bind (balanced_calls (Program.calls_perform trivial)) fun now => ?_
  refine balanced_bind (balanced_calls (Program.calls_perform trivial)) fun paths => ?_
  exact balanced_foldlM (fun _ path => balanced_purgeFile settings now path) _ _

/-- A request starts and ends without locks. -/
theorem balanced_request (settings : Settings) (r : Request) :
    Balanced (fun _ => 0) (r.program settings) := by
  have alone : ∀ {key : Key} (key' : Key), 0 < (0 : Nat) → key' = key :=
    fun _ never => absurd never (lt_irrefl 0)
  cases r with
  | resolve objectName sha256 =>
      refine balanced_bind (balanced_ite (fun _ => ?_) fun _ =>
        balanced_calls (Program.calls_perform trivial)) fun _ => balanced_ret ()
      refine balanced_bind (balanced_calls (Program.calls_perform trivial)) fun _ => ?_
      refine balanced_withKeyLock alone (balanced_resolveLocked settings ?_ (oneMore_pos _ _) _ _)
      intro key' positive
      by_contra other
      rw [oneMore, Function.update_of_ne other] at positive
      exact lt_irrefl 0 positive
  | invalidate objectName sha256 =>
      refine balanced_ite (fun _ => balanced_withKeyLock alone ?_) fun _ => balanced_ret ()
      exact balanced_calls (modest_removeEntry (oneMore_pos _ _))
  | purge => exact balanced_purgeExpired settings
  | evict needBytes => exact balanced_evictLru needBytes none
  | store key content sha256 etag objectName =>
      exact balanced_store settings alone content sha256 etag objectName

end Programs

/-! ### Runs -/

/-- The pools that arbitrary requests reach from an empty cache. -/
def Serves (settings : Settings) (clock : ℚ) : Pool CacheCalls Exc World → Prop :=
  Pool.Reachable disk (fun p => ∃ r : Request, p = r.program settings) (fun _ _ _ => True)
    (World.start clock)

def keyLocks : Locks CacheCalls World Key where
  asks
    | .acquire key => some key
    | _ => none
  Holds w t key := 0 < w.depth t key
  exclusive := by
    intro w t u key holds holds'
    by_contra other
    exact absurd (depth_exclusive holds (Ne.symm other)) (by omega)

variable {settings : Settings} {clock : ℚ} {c : Pool CacheCalls Exc World}

theorem serves_sound (run : Serves settings clock c) : lockOrder.Sound c := by
  have counted : Counted (World.start clock) := ⟨by simp [World.start], 0, fun _ _ => rfl⟩
  refine reachable_sound ?_ counted (fun _ _ => rfl) run
  rintro _ ⟨r, rfl⟩ t
  exact balanced_request settings r t

theorem serves_orderly (run : Serves settings clock c) : keyLocks.Orderly disk c := by
  have sound := serves_sound run
  refine ⟨fun t op free => ?_, fun t idle key holds => ?_, ?_⟩
  · refine exec_answers sound.inv op fun key asks u holds => ?_
    subst asks
    exact free key rfl u holds
  · exact absurd (sound.idle t idle key) (Nat.ne_of_gt holds)
  · intro t op next key at_call asks key' holds
    have ordered : Ordered t op c.state := sound.good at_call trivial
    cases op with
    | acquire wanted =>
        cases asks
        exact le_of_eq (ordered key' holds)
    | _ => cases asks

theorem serves_finite (run : Serves settings clock c) : c.busy.Finite :=
  finite_steps run (by simp [Pool.busy])

/-- Whatever has been asked of the cache, in whatever order the threads go on and however their
calls are answered, the requests under way come to their end, and then no lock is held. -/
theorem requests_complete (settings : Settings) (clock : ℚ) (c : Pool CacheCalls Exc World)
    (run : Serves settings clock c) : c.Completes disk fun w => ∀ key, w.locks key = none := by
  refine Locks.completes (k := keyLocks) (I := Serves settings clock)
    (fun c c' run onward => run.trans (steps_onward onward)) (fun c => serves_orderly)
    (fun c => serves_finite) (fun c run rest key => ?_) run
  have sound := serves_sound run
  cases taken : c.state.locks key with
  | none => rfl
  | some lock =>
      have depth : c.state.depth lock.1 key = lock.2 := by simp [World.depth, timesHeld, taken]
      have positive := sound.inv.locks key lock.1 lock.2 taken
      have free : c.state.depth lock.1 key = 0 := sound.idle lock.1 (rest _) key
      omega

/-- The file that a thread is about to change. -/
def aboutToChange (c : Pool CacheCalls Exc World) (t : Nat) : Option Path :=
  match c.threads t with
  | some (.call (.replace _ path) _) => some path
  | some (.call (.unlink path) _) => some path
  | _ => none

/-- It has locked a key that the file belongs to. -/
theorem locked_of_aboutToChange (run : Serves settings clock c) {t : Nat} {path : Path}
    (change : aboutToChange c t = some path) : ∃ key, 0 < c.state.depth t key ∧ Owns key path := by
  have sound := serves_sound run
  rw [aboutToChange] at change
  split at change
  · next temp path' next at_call =>
    cases change
    have ordered : Ordered t (.replace temp path) c.state := sound.good at_call trivial
    exact ordered
  · next path' next at_call =>
    cases change
    have ordered : Ordered t (.unlink path) c.state := sound.good at_call trivial
    exact ordered
  · cases change

/-- Two threads are never both about to change one file, unless it is a file of two keys, each
of which one of them has locked. -/
theorem changes_exclusive (settings : Settings) (clock : ℚ) (c : Pool CacheCalls Exc World)
    (run : Serves settings clock c) (t u : Nat) (other : t ≠ u) (path : Path)
    (change : aboutToChange c t = some path) (change' : aboutToChange c u = some path) :
    ∃ key key', key ≠ key' ∧ Owns key path ∧ Owns key' path ∧
      0 < c.state.depth t key ∧ 0 < c.state.depth u key' := by
  obtain ⟨key, held, owns⟩ := locked_of_aboutToChange run change
  obtain ⟨key', held', owns'⟩ := locked_of_aboutToChange run change'
  refine ⟨key, key', ?_, owns, owns', held, held'⟩
  rintro rfl
  exact other (keyLocks.exclusive held held')

def unlimited : Settings where
  enabled := true
  maxBytes := 1000
  ttlSeconds := 3600
  sha256 := fun _ => "h"

/-- An object is stored while it is invalidated under two other spellings of its name. -/
def spellings : List (Move CacheCalls Exc) :=
  [.start 0 (Request.program unlimited (.store "name:a/b" [1] "other" "e" "a/b"))] ++
    List.replicate 7 (.turn 0) ++
    [.start 1 (Request.program unlimited (.invalidate "a//b" "")), .turn 1, .turn 1,
      .start 2 (Request.program unlimited (.invalidate "a/./b" "")), .turn 2, .turn 2]

def spelled : Pool CacheCalls Exc World :=
  Pool.after (answer ⟨[], fun _ => [], "e"⟩) spellings ⟨fun _ => none, World.start 0⟩

theorem serves_spelled : Serves unlimited 0 spelled := by
  have played : Pool.play (answer ⟨[], fun _ => [], "e"⟩) spellings
      ⟨fun _ => none, World.start 0⟩ = some spelled := play_after (by decide +kernel)
  refine steps_play ?_ ?_ played
  · exact fun t op w r w' h => ⟨trivial, exec_of_answer h⟩
  · intro t p mem
    simp only [spellings, List.cons_append, List.nil_append, List.replicate, List.mem_cons,
      Move.start.injEq, reduceCtorEq, List.not_mem_nil, or_false, false_or] at mem
    rcases mem with ⟨-, rfl⟩ | ⟨-, rfl⟩ | ⟨-, rfl⟩
    · exact ⟨_, rfl⟩
    · exact ⟨_, rfl⟩
    · exact ⟨_, rfl⟩

theorem requests_complete_spelled : spelled.Completes disk fun w => ∀ key, w.locks key = none :=
  requests_complete unlimited 0 spelled serves_spelled

theorem changes_exclusive_spelled : ∃ key key', key ≠ key' ∧ Owns key ["na", "name:a", "b"] ∧
    Owns key' ["na", "name:a", "b"] ∧ 0 < spelled.state.depth 1 key ∧ 0 < spelled.state.depth 2 key' :=
  changes_exclusive unlimited 0 spelled serves_spelled 1 2 (by decide) _ (by decide +kernel)
    (by decide +kernel)

end AcojWorker.FileCache
