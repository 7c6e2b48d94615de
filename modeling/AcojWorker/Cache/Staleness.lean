import AcojWorker.Cache.Descriptions

/-!
# Bounded staleness

An object that is addressed by its name is validated by its ETag, in one request to the storage,
and downloaded in another one. If the object still has that ETag in between, what the cache
returns is never older than the interval of the validations.
-/

namespace AcojWorker.FileCache.Mirror

open Python Effect Discipline

-- The paths of a key are not to be computed when one is substituted.
attribute [local irreducible] FileCache.dataPath FileCache.metaPath

/-! ### Resolving -/

section Resolving

variable {keys : Set Key} {etag : Bytes → String} {t : Nat} {key : Key} {κ : Key → Nat}
  (own : OwnFiles keys) (mem : key ∈ keys) (held : 0 < κ key)

/-- A block that returns a path returns that of its data file, which is vouched for. -/
def Returns (keys : Set Key) (etag : Bytes → String) (t : Nat) (key : Key) (κ : Key → Nat)
    (P : Site → Prop) (block : Caching (Option Path)) : Prop :=
  (mirroring keys etag).Triple t P block (Post (fun path s => ∀ p, path = some p →
    p = dataPath key ∧ Under t κ (Grip t (Vouched t key) none noTemps) s) fun _ _ => True)

theorem returns_none {P : Site → Prop} : Returns keys etag t key κ P (pure none) :=
  triple_ret fun _ _ _ => nofun

theorem returns_path :
    Returns keys etag t key κ (Under t κ (Grip t (Vouched t key) none noTemps))
      (pure (some (dataPath key))) := by
  refine triple_ret fun s _ h p same => ?_
  cases same
  exact ⟨rfl, h⟩

include own mem held

theorem returns_hit :
    Returns keys etag t key κ (Under t κ (Grip t (Vouched t key) none noTemps)) (hit key) :=
  triple_bind (grip_touchMeta own mem held lasts_vouched) fun _ => returns_path

omit own in
/-- An entry that is fresh is vouched for. -/
theorem grip_isFresh :
    (mirroring keys etag).Triple t (Under t κ (Grip t (fun _ => True) none noTemps)) (isFresh key)
      (Post (fun (fresh : Bool) =>
        Under t κ (Grip t (fun s => fresh = true → Vouched t key s) none noTemps)) fun _ _ => True) := by
  have robust : Robust keys t κ (Grip t (fun _ => True) none noTemps) :=
    robust_grip mem held lasts_true
  have stale : ∀ s, Under t κ (Grip t (fun _ => True) none noTemps) s →
      Under t κ (Grip t (fun s => false = true → Vouched t key s) none noTemps) s :=
    fun s h => ⟨h.depth, h.knows.mono fun _ => nofun⟩
  refine meek_step (Program.calls_perform trivial) robust fun found => ?_
  refine triple_ite (fun _ => ?_) fun _ => triple_ret fun s _ h => stale s h
  refine triple_bind (grip_readMeta mem held lasts_true) fun document => ?_
  refine triple_ite (fun some => ?_) fun _ => triple_ret fun s _ h => stale s ?_
  · refine triple_bind (grip_now mem held (lasts_true.and lasts_describes.or)) fun now => ?_
    refine lift_step fun stored hget => lift_step fun validated hnumber => triple_ret fun s _ h => ?_
    refine ⟨h.depth, h.knows.mono fun knows fresh => ?_⟩
    have describes : Describes etag key document s := by
      refine knows.1.2.resolve_left ?_
      rintro rfl
      exact nomatch some
    exact describes.fresh hget hnumber knows.2.1 (of_decide_eq_true fresh)
  · exact ⟨h.depth, h.knows.mono fun _ => trivial⟩

omit own mem held in
/-- A key that is not that of a name is vouched for by its hash. -/
theorem vouched_of_hash {sha256 objectName : String} (declared : sha256 ≠ "") (s : Site) :
    Vouched t (cacheKey sha256 objectName) s :=
  fun _ named => absurd (cacheKey_eq_nameKey named).1 declared

omit own mem held in
/-- What is vouched for if a condition is met. -/
theorem returns_ite {P : Site → Prop} {c : Bool} {p q : Caching (Option Path)}
    (hp : Returns keys etag t key κ (Under t κ (Grip t (Vouched t key) none noTemps)) p)
    (hq : Returns keys etag t key κ (Under t κ (Grip t (fun _ => True) none noTemps)) q)
    (knows : ∀ s, P s →
      Under t κ (Grip t (fun s => c = true → Vouched t key s) none noTemps) s) :
    Returns keys etag t key κ P (if c then p else q) := by
  refine triple_ite (fun yes => triple_pre hp fun s _ h => ?_) fun _ => triple_pre hq fun s _ h => ?_
  · exact ⟨(knows s h).depth, (knows s h).knows.mono fun vouched => vouched yes⟩
  · exact ⟨(knows s h).depth, (knows s h).knows.mono fun _ => trivial⟩

end Resolving

/-! ### Resolving an object -/

section Objects

variable {keys : Set Key} {etag : Bytes → String} {t : Nat} {κ : Key → Nat}
  {sha256 objectName : String} (own : OwnFiles keys) (mem : cacheKey sha256 objectName ∈ keys)
  (held : 0 < κ (cacheKey sha256 objectName))

include mem held

theorem grip_isTrusted :
    (mirroring keys etag).Triple t (Under t κ (Grip t (fun _ => True) none noTemps))
      (isTrusted sha256 (cacheKey sha256 objectName))
      (Post (fun (trusted : Bool) => Under t κ (Grip t
          (fun s => trusted = true → Vouched t (cacheKey sha256 objectName) s) none noTemps))
        fun _ _ => True) := by
  have robust : Robust keys t κ (Grip t (fun _ => True) none noTemps) :=
    robust_grip mem held lasts_true
  refine triple_ite (fun declared => ?_) fun _ => grip_isFresh mem held
  refine triple_post (triple_meek (Program.calls_perform trivial) robust) ?_
  rintro (e | trusted) s _ h
  · exact trivial
  · exact ⟨h.depth, h.knows.mono fun _ _ => vouched_of_hash declared s⟩

include own

theorem returns_remoteGone :
    Returns keys etag t (cacheKey sha256 objectName) κ
      (Under t κ (Grip t (fun _ => True) none noTemps))
      (remoteGone sha256 (cacheKey sha256 objectName)) := by
  have robust : Robust keys t κ (Grip t (fun _ => True) none noTemps) :=
    robust_grip mem held lasts_true
  refine triple_bind (R := fun kept => Under t κ (Grip t (fun s => kept = true →
    Vouched t (cacheKey sha256 objectName) s) none noTemps)) ?_ fun kept => ?_
  · refine triple_ite (fun declared => ?_) fun _ => triple_ret fun s _ h => ?_
    · refine triple_post (triple_meek (Program.calls_perform trivial) robust) ?_
      rintro (e | kept) s _ h
      · exact trivial
      · exact ⟨h.depth, h.knows.mono fun _ _ => vouched_of_hash declared s⟩
    · exact ⟨h.depth, h.knows.mono fun _ => nofun⟩
  refine returns_ite (returns_hit own mem held) ?_ fun _ h => h
  refine meek_step (Program.calls_perform trivial) robust fun found => ?_
  refine triple_ite (fun _ => ?_) fun _ => returns_none
  exact meek_step (meek_removeEntry _) robust fun _ => returns_none

omit own mem held in
/-- An entry with the ETag that the thread had been told holds what the object had then. -/
theorem had_of_sameEtag (injective : Function.Injective etag) {document : Value} {remoteEtag : String}
    {validated : ℚ} {s : Site} (same : sameEtag document remoteEtag = .ok true)
    (described : document = .none ∨ Describes etag (cacheKey sha256 objectName) document s)
    (timed : Timed etag t (cacheKey sha256 objectName) (some (objectName, remoteEtag)) validated s)
    (o : String) (named : cacheKey sha256 objectName = nameKey o) (content : Bytes)
    (data : s.world.files (dataPath (cacheKey sha256 objectName)) = some (.data content)) :
    s.had o content validated := by
  obtain rfl : objectName = o := (cacheKey_eq_nameKey named).2
  have describes : Describes etag (cacheKey sha256 objectName) document s := by
    refine described.resolve_left ?_
    rintro rfl
    exact nomatch same
  have tagged := etag_of_sameEtag same (describes objectName named content data)
  obtain ⟨content', tagged', had⟩ := timed.2 objectName remoteEtag rfl named
  obtain rfl : content' = content := injective (tagged'.trans tagged.symm)
  exact had

/-- An entry that is still the remote one is vouched for. -/
theorem grip_isCurrent (injective : Function.Injective etag) (remoteEtag : String) :
    (mirroring keys etag).Triple t
      (Under t κ (Grip t (fun _ => True) (some (objectName, remoteEtag)) noTemps))
      (isCurrent (cacheKey sha256 objectName) remoteEtag)
      (Post (fun (current : Bool) => if current then
          Under t κ (Grip t (Vouched t (cacheKey sha256 objectName)) none noTemps)
        else Under t κ (Grip t (fun _ => True) (some (objectName, remoteEtag)) noTemps))
        fun _ _ => True) := by
  have robust : Robust keys t κ (Grip t (fun _ => True) (some (objectName, remoteEtag)) noTemps) :=
    robust_grip mem held lasts_true
  refine meek_step (Program.calls_perform trivial) robust fun found => ?_
  refine triple_ite (fun _ => ?_) fun _ => triple_ret fun _ _ h => h
  refine triple_bind (grip_readMeta mem held lasts_true) fun document => lift_step fun same hsame => ?_
  have lasts : Lasts t (cacheKey sha256 objectName) fun s =>
      True ∧ (document = .none ∨ Describes etag (cacheKey sha256 objectName) document s) :=
    lasts_true.and lasts_describes.or
  refine triple_ite (fun yes => ?_) fun _ => ?_
  · subst yes
    have timed : ∀ told now, Lasts t (cacheKey sha256 objectName)
        (Timed etag t (cacheKey sha256 objectName) told now) := fun _ _ => ofPast_timed.lasts
    refine triple_bind (grip_now mem held lasts) fun validated => ?_
    refine triple_bind (grip_now mem held (lasts.and (timed _ _))) fun accessed => ?_
    refine triple_bind (grip_updateMeta own mem held ((lasts.and (timed _ _)).and (timed _ _))
      fun s knows => had_of_sameEtag injective hsame knows.1.1.2 knows.1.2) fun _ => ?_
    refine triple_ret fun s _ h => ⟨h.depth, h.knows.mono fun knows => ?_⟩
    exact vouched_of_had knows.1.2.1 (had_of_sameEtag injective hsame knows.1.1.2 knows.1.2)
  · refine meek_step (meek_removeEntry _) (robust_grip mem held lasts) fun _ => ?_
    exact triple_ret fun s _ h => ⟨h.depth, h.knows.mono fun _ => trivial⟩

theorem returns_downloadAndStore (settings : Settings) (injective : Function.Injective etag)
    (remoteEtag : String) :
    Returns keys etag t (cacheKey sha256 objectName) κ
      (Under t κ (Grip t (fun _ => True) (some (objectName, remoteEtag)) noTemps))
      (downloadAndStore settings objectName sha256 (cacheKey sha256 objectName) remoteEtag) := by
  refine triple_bind (grip_download mem held lasts_true objectName) fun content =>
    triple_pure fun tagged => lift_step fun digest _ => ?_
  refine triple_bind (R := fun _ =>
    Under t κ (Grip t (Vouched t (cacheKey sha256 objectName)) none noTemps)) ?_
    fun _ => returns_path
  refine triple_bind ?_ fun now => triple_evictLruIfNeeded
    (robust_grip mem held lasts_vouched) settings 0 (some now)
  refine triple_bind (triple_acquire (robust_grip mem held lasts_true) _) fun _ => ?_
  have more : 0 < relock κ (cacheKey sha256 objectName) (cacheKey sha256 objectName) := by
    rw [relock_self]
    exact Nat.succ_pos _
  refine triple_leaving (R := fun _ => Grip t (Vouched t (cacheKey sha256 objectName)) none noTemps)
    (fun _ => robust_grip mem more lasts_vouched) ?_
  exact grip_storeFiles own mem more injective digest (fun o named => (cacheKey_eq_nameKey named).2)
    (tagged remoteEtag rfl)

theorem returns_revalidate (settings : Settings) (injective : Function.Injective etag) :
    Returns keys etag t (cacheKey sha256 objectName) κ
      (Under t κ (Grip t (fun _ => True) none noTemps))
      (revalidate settings objectName sha256 (cacheKey sha256 objectName)) := by
  refine meek_step (Program.calls_perform trivial) (robust_grip mem held lasts_true) fun _ => ?_
  refine triple_bind (grip_headOrNone mem held lasts_true objectName) fun head => ?_
  cases head with
  | none => exact returns_remoteGone own mem held
  | some remoteEtag =>
      refine triple_bind (grip_isCurrent own mem held injective remoteEtag) fun current => ?_
      cases current with
      | true => exact returns_path
      | false => exact returns_downloadAndStore own mem held settings injective remoteEtag

theorem returns_resolveLocked (settings : Settings) (injective : Function.Injective etag) :
    Returns keys etag t (cacheKey sha256 objectName) κ
      (Under t κ (Grip t (fun _ => True) none noTemps))
      (resolveLocked settings objectName sha256 (cacheKey sha256 objectName)) := by
  refine triple_bind (grip_isTrusted mem held) fun trusted => ?_
  exact returns_ite (returns_hit own mem held)
    (returns_revalidate own mem held settings injective) fun _ h => h

omit own in
/-- A block that returns a path: what is there is not too old. -/
theorem leaves_returning {P : Site → Prop} {block : Caching (Option Path)}
    (hblock : Returns keys etag t (cacheKey sha256 objectName) κ P block) :
    (mirroring keys etag).Triple t P (leaving (cacheKey sha256 objectName) id block)
      fun _ _ => True := by
  refine triple_bind (triple_attempt hblock) fun outcome => ?_
  refine any_step ?_ fun _ => triple_lift (fun _ _ _ _ _ => trivial) fun _ _ _ _ _ => trivial
  have pathless : ∀ {Q : Site → Prop} {outcome : Except Exc (Option Path)},
      Mild (.release (cacheKey sha256 objectName) outcome) → (mirroring keys etag).Triple t Q
        (call (.release (cacheKey sha256 objectName) outcome)) fun _ _ => True :=
    fun mild => triple_pre (triple_mild (Program.calls_perform mild)) fun _ _ _ => trivial
  match outcome with
  | .error e => exact pathless trivial
  | .ok none => exact pathless trivial
  | .ok (some path) =>
      refine triple_pre (P := fun s => path = dataPath (cacheKey sha256 objectName) ∧
        Under t κ (Grip t (Vouched t (cacheKey sha256 objectName)) none noTemps) s) ?_
        fun s _ h => h path rfl
      refine triple_pure ?_
      rintro rfl
      refine triple_perform (under_stable (robust_grip mem held lasts_vouched)) ?_ ?_
      · intro s inv under _ o named file there
        obtain ⟨content, rfl⟩ := inv.contents _ mem file there
        obtain ⟨moment, had, late⟩ := under.knows.knows o named content there
        exact ⟨content, moment, rfl, had, late, inv.past o content moment had⟩
      · exact fun s r s' inv _ _ h => ⟨keeps_exec (.release _ _) inv trivial h, trivial⟩

end Objects

/-! ### Requests -/

/-- What other code asks of the cache: contents are stored by resolving only. -/
def Asked : Request → Prop
  | .store .. => False
  | _ => True

theorem triple_request {keys : Set Key} {etag : Bytes → String} (settings : Settings)
    (injective : Function.Injective etag) (own : OwnFiles keys) {r : Request} (names : r.Names keys)
    (asked : Asked r) (t : Nat) :
    (mirroring keys etag).Triple t (fun _ => True) (r.program settings) fun _ _ => True := by
  have nothing : Robust keys t noLock fun _ => True := robust_true
  cases r with
  | resolve objectName sha256 =>
      refine any_step (triple_ite (fun _ => ?_) fun _ =>
        triple_mild (Program.calls_perform trivial)) fun _ => triple_ret fun _ _ _ => trivial
      refine any_step (triple_mild (Program.calls_perform trivial)) fun _ => ?_
      refine triple_bind (triple_pre (triple_acquire nothing _) ?_) fun _ => ?_
      · exact fun s _ _ => ⟨fun _ => Nat.zero_le _, trivial⟩
      · have held : 0 < relock noLock (cacheKey sha256 objectName) (cacheKey sha256 objectName) := by
          rw [relock_self]
          exact Nat.succ_pos _
        refine triple_pre (leaves_returning names held
          (returns_resolveLocked own names held settings injective)) fun s _ under => ?_
        exact ⟨under.depth, trivial, nofun, nofun⟩
  | invalidate objectName sha256 =>
      refine triple_mild (Program.calls_ite (fun _ => ?_) fun _ => trivial)
      exact Program.calls_bind (Program.calls_perform trivial) fun _ =>
        mild_leaving (mild_removeEntry _)
  | purge => exact triple_mild (mild_purgeExpired settings)
  | evict needBytes =>
      refine triple_post (triple_pre (triple_evictLru nothing needBytes none) ?_)
        fun _ _ _ _ => trivial
      exact fun s _ _ => ⟨fun _ => Nat.zero_le _, trivial⟩
  | store => exact asked.elim

/-! ### Runs -/

/-- The pools of the runs with requests about some keys, beside a storage that changes as it
likes. -/
def MirrorRuns (settings : Settings) (keys : Set Key) (etag : Bytes → String)
    (allowed : Nat → CacheOp → Site → Prop) (clock : ℚ) (objects : String → Option Bytes)
    (c : Pool CacheCalls Exc Site) : Prop :=
  Pool.Reachable (mirror etag)
    (fun p => ∃ r : Request, (r.Names keys ∧ Asked r) ∧ p = r.program settings) allowed
    (Site.start clock objects) c

/-- Whenever a path is returned for the name of an object, what is there is a content that the
object had during the request, or within the interval of the validations before it. -/
def NeverStale (c : Pool CacheCalls Exc Site) : Prop :=
  ∀ t objectName path next,
    c.threads t = some (.call (.release (nameKey objectName) (.ok (some path))) next) →
      ∀ file, c.state.world.files path = some file →
        ∃ content moment, file = .data content ∧ c.state.had objectName content moment ∧
          c.state.began t - revalidateInterval ≤ moment ∧ moment ≤ c.state.world.clock

theorem mirrored_start (keys : Set Key) (etag : Bytes → String) (clock : ℚ)
    (objects : String → Option Bytes) : Mirrored keys etag (Site.start clock objects) where
  current _ _ h := ⟨h, rfl⟩
  past _ _ _ h := h.2.le
  begun _ := le_rfl
  contents _ _ _ there := nomatch there
  paired _ _ _ there := nomatch there

theorem neverStale_of_mirrorRuns {settings : Settings} {keys : Set Key} {etag : Bytes → String}
    {clock : ℚ} {objects : String → Option Bytes} {c : Pool CacheCalls Exc Site}
    (injective : Function.Injective etag) (own : OwnFiles keys)
    (run : MirrorRuns settings keys etag (Consistent keys etag) clock objects c) :
    NeverStale c := by
  have sound : (mirroring keys etag).Sound c := by
    refine reachable_sound (d := mirroring keys etag) ?_ (mirrored_start keys etag clock objects)
      (fun _ => trivial) run
    rintro _ ⟨r, ⟨names, asked⟩, rfl⟩ t
    exact triple_request settings injective own names asked t
  exact fun t objectName path next at_call => sound.good at_call trivial objectName rfl

/-! ### Two histories -/

/-- On the cache itself nothing fails. -/
def diskAnswer (around : Surroundings) (t : Nat) (op : CacheOp) (s : Site) :
    Option (Except Exc op.Answer × Site) :=
  (answer around t op s.world).map fun x => (x.1, s.withWorld x.2)

theorem exec_of_diskAnswer {around : Surroundings} {t : Nat} {op : CacheOp} {s s' : Site}
    {r : Except Exc op.Answer} (h : diskAnswer around t op s = some (r, s')) :
    ∃ w, exec t op s.world r w ∧ s' = s.withWorld w := by
  obtain ⟨⟨r, w⟩, answers, hr⟩ := Option.map_eq_some_iff.mp h
  cases hr
  exact ⟨w, exec_of_answer answers, rfl⟩

/-- The storage answers, too. -/
def siteAnswer (etag : Bytes → String) (around : Surroundings) (t : Nat) :
    Script CacheCalls Exc Site
  | .ensureRoot, s => some (.ok (), s.begin t)
  | .now, s => some (.ok s.world.clock, s.tell t none)
  | .headObject objectName, s =>
      some (.ok ((s.objects objectName).map etag),
        s.tell t ((s.objects objectName).map fun content => (objectName, etag content)))
  | .download objectName, s => (s.objects objectName).map fun content =>
      (.ok content, s.withWorld
        { s.world with fetched := Function.update s.world.fetched t (some content) })
  | op, s => diskAnswer around t op s

theorem exec_of_siteAnswer {etag : Bytes → String} {around : Surroundings} {t : Nat} {op : CacheOp}
    {s s' : Site} {r : Except Exc op.Answer} (h : siteAnswer etag around t op s = some (r, s')) :
    (mirror etag).exec t op s r s' := by
  cases op with
  | ensureRoot =>
      cases h
      exact rfl
  | now =>
      cases h
      exact ⟨rfl, rfl⟩
  | headObject objectName =>
      cases h
      exact .inr ⟨rfl, rfl⟩
  | download objectName =>
      obtain ⟨content, there, hr⟩ := Option.map_eq_some_iff.mp h
      cases hr
      exact .inr ⟨content, there, rfl, rfl⟩
  | _ => exact exec_of_diskAnswer h

/-- A character for each byte. -/
def latinEtag (content : Bytes) : String := String.ofList (content.map fun b => Char.ofNat b.toNat)

theorem latinEtag_injective : Function.Injective latinEtag := by
  have ofNat : ∀ n, n < 256 → (Char.ofNat n).toNat = n := by decide +kernel
  intro content content' same
  have chars : content.map (fun b => Char.ofNat b.toNat) =
      content'.map fun b => Char.ofNat b.toNat := String.ofList_injective same
  refine List.map_injective_iff.mpr (fun b b' h => ?_) chars
  have numbers := congrArg Char.toNat h
  rw [ofNat _ b.toNat_lt, ofNat _ b'.toNat_lt] at numbers
  exact UInt8.toNat_inj.mp numbers

/-- Only the object `a` is there. -/
def onlyA (content : Bytes) : String → Option Bytes :=
  Function.update (fun _ => none) "a" (some content)

theorem ownFiles_keysOfA : OwnFiles keysOfA := by
  rintro _ ⟨_, rfl, rfl⟩ _ ⟨_, rfl, rfl⟩ _ _ _
  rfl

def isDownload : CacheOp → Bool
  | .download _ => true
  | _ => false

def resolveA : Caching Unit := (Request.resolve "a" "").program shortLived

abbrev answerA : Script CacheCalls Exc Site := siteAnswer latinEtag (besideObject "a") 0

/-- The object changes between the two requests to the storage, and changes back. A minute later
the path is returned. -/
def staleRead : Option ((Caching Unit × Site) × (Caching Unit × Site) × (Caching Unit × Site)) := do
  let told ← resolveA.advance answerA isDownload (Site.start 0 (onlyA [1]))
  let stored ← told.1.advance answerA (fun _ => false) (told.2.change "a" (some [2]))
  let changed := stored.2.change "a" (some [1])
  let returned ← resolveA.advance answerA isReturn (changed.advance (changed.world.clock + 100))
  return (told, stored, returned)

theorem answerA_follows : answerA.Follows (mirror latinEtag) (fun _ _ _ => True) 0 :=
  fun _ _ _ _ h => ⟨trivial, exec_of_siteAnswer h⟩

/-- Calls change nothing of what objects have been. -/
theorem had_of_advance {stop : CacheOp → Bool} {p q : Caching Unit} {s s' : Site}
    (h : p.advance answerA stop s = some (q, s')) : s'.had = s.had := by
  refine advance_keeps (I := fun s₁ => s₁.had = s.had) (fun op s₁ r s₂ before answer => ?_) rfl h
  exact (remembers_exec (exec_of_siteAnswer answer)).had.trans before

section Interrupted

variable {allowed : Nat → CacheOp → Site → Prop} {objects : String → Option Bytes}
  {script : Script CacheCalls Exc Site} (follows : script.Follows (mirror latinEtag) allowed 0)
  {stop : CacheOp → Bool} {q : Caching Unit} {s s' : Site}

include follows

theorem mirrorRuns_resolveA
    (idle : MirrorRuns shortLived keysOfA latinEtag allowed 0 objects ⟨fun _ => none, s⟩)
    (h : resolveA.advance script stop s = some (q, s')) :
    MirrorRuns shortLived keysOfA latinEtag allowed 0 objects (Pool.single 0 q s') :=
  reachable_advance follows ⟨.resolve "a" "", ⟨⟨("", "a"), rfl, rfl⟩, trivial⟩, rfl⟩ idle h

/-- The object changes while a request is under way. -/
theorem mirrorRuns_change {p : Caching Unit} {content : Option Bytes}
    (run : MirrorRuns shortLived keysOfA latinEtag allowed 0 objects (Pool.single 0 p s))
    (h : p.advance script (fun _ => false) (s.change "a" content) = some (q, s')) :
    MirrorRuns shortLived keysOfA latinEtag allowed 0 objects ⟨fun _ => none, s'⟩ := by
  have changed : MirrorRuns shortLived keysOfA latinEtag allowed 0 objects
      (Pool.single 0 p (s.change "a" content)) := run.tail (.drift (.inr ⟨"a", content, rfl⟩))
  exact reachable_end (changed.trans (steps_advance follows h)) (advance_done h)

end Interrupted

/-- The ETag of one content is stored with another one, and is believed for ever. -/
theorem stale_after_race : Function.Injective latinEtag ∧ OwnFiles keysOfA ∧
    ∃ c, MirrorRuns shortLived keysOfA latinEtag (fun _ _ _ => True) 0 (onlyA [1]) c ∧
      ¬ NeverStale c := by
  refine ⟨latinEtag_injective, ownFiles_keysOfA, ?_⟩
  have clocks : staleRead.map (fun r => (r.1.2.world.clock, r.2.2.2.began 0)) = some (0, 100) := by
    decide +kernel
  have returned : staleRead.bind (fun r => returning (r.2.2.1, r.2.2.2.world)) =
      some ("name:a", ["na", "name:a"], some (some [2])) := by decide +kernel
  obtain ⟨r, read, clocks⟩ := Option.map_eq_some_iff.mp clocks
  rw [read, Option.bind_some] at returned
  simp only [staleRead, Option.bind_eq_bind, Option.bind_eq_some_iff, pure, Option.some.injEq,
    Prod.exists] at read
  obtain ⟨p₁, s₁, h₁, p₂, s₂, h₂, p₃, s₃, h₃, rfl⟩ := read
  obtain ⟨clock, began⟩ := Prod.mk.inj clocks
  have stored := mirrorRuns_change answerA_follows (mirrorRuns_resolveA answerA_follows .refl h₁) h₂
  have later : s₂.world.clock ≤ s₂.world.clock + 100 := by norm_num
  have idle := (stored.tail (.drift (.inr ⟨"a", some [1], rfl⟩))).tail
    (.drift (.inl ⟨s₂.world.clock + 100, later, rfl⟩))
  have run := mirrorRuns_resolveA answerA_follows idle h₃
  obtain ⟨next, rfl, there⟩ := returning_eq_some returned
  refine ⟨_, run, fun never => ?_⟩
  obtain ⟨file, there, hfile⟩ := Option.map_eq_some_iff.mp there
  obtain ⟨content, moment, rfl, had, late, -⟩ :=
    never 0 "a" _ next (Pool.single_threads ..) file there
  obtain rfl : content = [2] := Option.some.inj hfile
  change s₃.began 0 - revalidateInterval ≤ moment at late
  change s₃.had "a" [2] moment at had
  rw [had_of_advance h₃] at had
  rcases had with (earlier | ⟨-, other, -⟩) | ⟨other, -, -⟩
  · rw [had_of_advance h₂] at earlier
    rcases earlier with first | ⟨-, -, now⟩
    · rw [had_of_advance h₁] at first
      exact absurd first.1 (by decide)
    · rw [began, now, clock, revalidateInterval] at late
      norm_num at late
  · exact absurd other (by decide)
  · change Function.update s₂.objects "a" (some [1]) "a" = some [2] at other
    rw [Function.update_self] at other
    exact absurd other (by decide)

/-- Whether a call of the first thread meets the condition of the runs. -/
def isConsistent : CacheOp → Site → Bool
  | .download _, s | .now, s =>
      match s.told 0 with
      | some (objectName, tag) => (s.objects objectName).map latinEtag = some tag
      | none => true
  | .replace _ path, s => path ≠ dataPath "name:a" ∨ (s.world.files (metaPath "name:a")).isNone
  | _, _ => true

theorem stillTold_of_match {s : Site} (h : (match s.told 0 with
      | some (objectName, tag) => decide ((s.objects objectName).map latinEtag = some tag)
      | none => true) = true) : StillTold latinEtag 0 s := by
  intro objectName tag told _
  rw [told] at h
  exact of_decide_eq_true h

theorem consistent_of_isConsistent (op : CacheOp) (s : Site) (h : isConsistent op s = true) :
    Consistent keysOfA latinEtag 0 op s := by
  cases op with
  | download => exact stillTold_of_match h
  | now => exact stillTold_of_match h
  | replace temp path =>
      rintro objectName ⟨_, rfl, named⟩ rfl
      change nameKey objectName = "name:a" at named
      rw [named] at h ⊢
      obtain impossible | absent := of_decide_eq_true h
      · exact absurd rfl impossible
      · exact Option.isNone_iff_eq_none.mp absent
  | _ => exact trivial

/-- Another content is uploaded after the first one has been stored; half a minute later the first
one is still returned. -/
def freshRead : Option ((Caching Unit × Site) × (Caching Unit × Site)) := do
  let script := answerA.guarded isConsistent
  let stored ← resolveA.advance script (fun _ => false) (Site.start 0 (onlyA [1]))
  let changed := stored.2.change "a" (some [2])
  let returned ← resolveA.advance script isReturn (changed.advance (changed.world.clock + 30))
  return (stored, returned)

theorem neverStale_afterUpload : ∃ c next,
    MirrorRuns shortLived keysOfA latinEtag (Consistent keysOfA latinEtag) 0 (onlyA [1]) c ∧
      c.threads 0 = some (.call (.release "name:a" (.ok (some ["na", "name:a"]))) next) ∧
      (c.state.world.files ["na", "name:a"]).map File.content? = some (some [1]) ∧
      c.state.objects "a" = some [2] ∧ NeverStale c := by
  have objects : freshRead.map (fun r => r.2.2.objects "a") = some (some [2]) := by decide +kernel
  have returned : freshRead.bind (fun r => returning (r.2.1, r.2.2.world)) =
      some ("name:a", ["na", "name:a"], some (some [1])) := by decide +kernel
  obtain ⟨r, read, objects⟩ := Option.map_eq_some_iff.mp objects
  rw [read, Option.bind_some] at returned
  simp only [freshRead, Option.bind_eq_bind, Option.bind_eq_some_iff, pure, Option.some.injEq,
    Prod.exists] at read
  obtain ⟨p₁, s₁, h₁, p₂, s₂, h₂, rfl⟩ := read
  have follows : (answerA.guarded isConsistent).Follows (mirror latinEtag)
      (Consistent keysOfA latinEtag) 0 :=
    guarded_follows (fun _ _ _ _ => exec_of_siteAnswer) consistent_of_isConsistent
  have stored := reachable_end (mirrorRuns_resolveA follows .refl h₁) (advance_done h₁)
  have later : s₁.world.clock ≤ s₁.world.clock + 30 := by norm_num
  have idle := (stored.tail (.drift (.inr ⟨"a", some [2], rfl⟩))).tail
    (.drift (.inl ⟨s₁.world.clock + 30, later, rfl⟩))
  have run := mirrorRuns_resolveA follows idle h₂
  obtain ⟨next, rfl, there⟩ := returning_eq_some returned
  exact ⟨_, next, run, Pool.single_threads .., there, objects,
    neverStale_of_mirrorRuns latinEtag_injective ownFiles_keysOfA run⟩

end AcojWorker.FileCache.Mirror
